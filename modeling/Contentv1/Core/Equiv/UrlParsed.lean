import Contentv1.Core.UrlParsed
import Mathlib.Data.List.TakeWhile

/-!
# Robots URLs

* `endsWith_robots_ofUrl`: the robots URL that the constructor builds ends like one.
* `IsRobotsUrlOf`: the robots URLs of a host, one for each protocol.
* `Contribs.RobotsUrlsParse` is what the code relies on of the URL parser, and
  `robotsUrlsParse_plainHttp` checks it of the plain one.
-/

namespace Contentv1

namespace UrlParsed

variable {c : Contribs} {url : Url}

/-- The robots URL that the constructor builds. -/
theorem robots_ofUrl {ada : AdaUrl} (h : c.adaParse url = some ada) :
    (ofUrl c url).ok = true ∧ (ofUrl c url).host = ada.host ∧
      (ofUrl c url).robots = ⟨ada.protocol.bytes ++ (Str.ofString "//").bytes ++ ada.host.bytes
        ++ robotsPostfix.bytes⟩ := by
  unfold ofUrl
  rw [h]
  exact ⟨rfl, rfl, rfl⟩

/-- What parses has the parts that the parser found. -/
theorem exists_adaParse_of_ok (hok : (ofUrl c url).ok = true) :
    ∃ ada, c.adaParse url = some ada := by
  cases hparse : c.adaParse url with
  | none => simp [ofUrl, hparse] at hok
  | some ada => exact ⟨ada, rfl⟩

theorem endsWith_robots_ofUrl (hok : (ofUrl c url).ok = true) :
    (ofUrl c url).robots.endsWith robotsPostfix = true := by
  obtain ⟨ada, hparse⟩ := exists_adaParse_of_ok hok
  have hsuffix : robotsPostfix.bytes <:+
      ada.protocol.bytes ++ (Str.ofString "//").bytes ++ ada.host.bytes ++ robotsPostfix.bytes :=
    List.suffix_append _ _
  rw [(robots_ofUrl hparse).2.2]
  simpa [Str.endsWith] using hsuffix

/-- What ends like a robots URL is not empty. -/
theorem isEmpty_of_endsWith_robots {url : Url} (h : url.endsWith robotsPostfix = true) :
    url.bytes.isEmpty = false := by
  have hsuffix : robotsPostfix.bytes <:+ url.bytes := List.isSuffixOf_iff_suffix.mp h
  have hne : robotsPostfix.bytes ≠ [] := by decide
  rw [List.isEmpty_eq_false_iff]
  rintro hnil
  rw [hnil, List.suffix_nil] at hsuffix
  exact hne hsuffix

theorem isRobots_of_normalized_eq_robots (hok : (ofUrl c url).ok = true)
    (h : (ofUrl c url).normalized = (ofUrl c url).robots) : (ofUrl c url).isRobots = true := by
  unfold isRobots
  rw [h]
  exact endsWith_robots_ofUrl hok

end UrlParsed

/-- `url` is a robots URL of the host, as the constructor builds it for some URL of the host. -/
def IsRobotsUrlOf (c : Contribs) (host : Host) (url : Url) : Prop :=
  ∃ u, (UrlParsed.ofUrl c u).ok = true ∧ (UrlParsed.ofUrl c u).host = host ∧
    (UrlParsed.ofUrl c u).robots = url

namespace Contribs

/-- What the code relies on of the parser: the robots URL of a host is a URL of that host. -/
def RobotsUrlsParse (c : Contribs) : Prop :=
  ∀ url, (UrlParsed.ofUrl c url).ok = true →
    (UrlParsed.ofUrl c (UrlParsed.ofUrl c url).robots).ok = true ∧
      (UrlParsed.ofUrl c (UrlParsed.ofUrl c url).robots).host = (UrlParsed.ofUrl c url).host

/-! ### The plain parser -/

/-- What the plain parser finds. -/
theorem adaParse_plainHttp_eq_some {url : Url} {ada : AdaUrl}
    (h : plainHttp.adaParse url = some ada) :
    ada.protocol = Str.ofString "http:" ∧ ada.host.bytes ≠ [] ∧
      ∀ b ∈ ada.host.bytes, (Str.ofString "/").bytes.contains b = false := by
  simp only [plainHttp, Option.ite_none_right_eq_some, Option.ite_none_left_eq_some] at h
  obtain ⟨-, hhost, heq⟩ := h
  obtain rfl := Option.some.inj heq
  refine ⟨rfl, fun hnil => hhost (List.isEmpty_iff.mpr hnil), fun b hb => ?_⟩
  have hall := List.all_takeWhile (p := fun b => !(Str.ofString "/").bytes.contains b)
    (l := url.bytes.drop (Str.ofString "http://").bytes.length)
  simpa using List.all_eq_true.mp hall b hb

/-- It finds the host again that stands between a scheme and a path. -/
theorem map_host_adaParse_plainHttp {host path : List (Fin 256)} (hne : host ≠ [])
    (hslash : ∀ b ∈ host, (Str.ofString "/").bytes.contains b = false) :
    (plainHttp.adaParse ⟨(Str.ofString "http://").bytes
        ++ (host ++ ((Str.ofString "/").bytes ++ path))⟩).map AdaUrl.host = some ⟨host⟩ := by
  have htake : (host ++ ((Str.ofString "/").bytes ++ path)).takeWhile
      (fun b => !(Str.ofString "/").bytes.contains b) = host := by
    rw [List.takeWhile_append_of_pos fun b hb => by rw [hslash b hb]; rfl]
    have hhead : (Str.ofString "/").bytes = [47] := by decide
    simp [hhead]
  have hemp : ¬ host.isEmpty = true := fun h => hne (List.isEmpty_iff.mp h)
  unfold plainHttp
  simp only [List.drop_left, htake]
  rw [if_pos (by simp), if_neg hemp]
  rfl

theorem robotsUrlsParse_plainHttp : plainHttp.RobotsUrlsParse := by
  intro url hok
  obtain ⟨ada, hparse⟩ := UrlParsed.exists_adaParse_of_ok hok
  obtain ⟨hprotocol, hne, hslash⟩ := adaParse_plainHttp_eq_some hparse
  obtain ⟨-, hhost, hrobots⟩ := UrlParsed.robots_ofUrl hparse
  have hbytes : ada.protocol.bytes ++ (Str.ofString "//").bytes ++ ada.host.bytes
        ++ robotsPostfix.bytes
      = (Str.ofString "http://").bytes ++ (ada.host.bytes
        ++ ((Str.ofString "/").bytes ++ (Str.ofString "robots.txt").bytes)) := by
    have hscheme : (Str.ofString "http:").bytes ++ (Str.ofString "//").bytes
        = (Str.ofString "http://").bytes := by decide
    have hpath : robotsPostfix.bytes
        = (Str.ofString "/").bytes ++ (Str.ofString "robots.txt").bytes := by decide
    rw [hprotocol, hscheme, hpath, List.append_assoc]
  have hagain := @map_host_adaParse_plainHttp _ (Str.ofString "robots.txt").bytes hne hslash
  rw [hrobots, hbytes, hhost]
  obtain ⟨ada', hparse', hhost'⟩ := Option.map_eq_some_iff.mp hagain
  obtain ⟨hok', hsame, -⟩ := UrlParsed.robots_ofUrl hparse'
  exact ⟨hok', hsame.trans hhost'⟩

end Contribs

/-- The plain parser knows one robots URL of a host, the one at its root. -/
theorem eq_of_isRobotsUrlOf_plainHttp {host : Host} {url : Url}
    (h : IsRobotsUrlOf .plainHttp host url) :
    url = ⟨(Str.ofString "http:").bytes ++ (Str.ofString "//").bytes ++ host.bytes
      ++ robotsPostfix.bytes⟩ := by
  obtain ⟨u, hok, rfl, rfl⟩ := h
  obtain ⟨ada, hparse⟩ := UrlParsed.exists_adaParse_of_ok hok
  obtain ⟨-, hhost, hrobots⟩ := UrlParsed.robots_ofUrl hparse
  obtain ⟨hprotocol, -⟩ := Contribs.adaParse_plainHttp_eq_some hparse
  rw [hrobots, hhost, hprotocol]

end Contentv1
