import Contentv1.Api.Credentials

/-!
# Which headers carry a pair of keys

`_parseApiKeys` cuts six characters off the header, whatever they are, and wants what it decodes to
be two parts with one colon between them.

* `parseApiKeys_eq_ok_iff` is the rule as the code has it.
* `roundTrip_and_onlyBasic_iff`: a pair of keys comes back from its header exactly if the secret
  has no colon, and what is accepted is of the scheme `Basic` exactly if the header does not have a
  pair of keys after six other characters.
-/

namespace Contentv1

/-! ### One separator -/

theorem length_splitOn_pos {l : List (Fin 256)} (sep : Fin 256) : 0 < (l.splitOn sep).length :=
  List.length_pos_iff.mpr (List.splitOn_ne_nil sep l)

/-- A separator makes two parts. -/
theorem two_le_length_splitOn {l : List (Fin 256)} {sep : Fin 256} (h : sep ∈ l) :
    2 ≤ (l.splitOn sep).length := by
  obtain ⟨before, after, rfl⟩ := List.append_of_mem h
  have hbefore := length_splitOn_pos (l := before) sep
  have hafter := length_splitOn_pos (l := after) sep
  rw [List.splitOn_append_cons_self, List.length_append]
  omega

/-- A string with one separator is cut into what is before it and what is after it. -/
theorem MiscSplit.split_eq_pair_iff (strings : MiscSplit) {s a b : Str} {sep : Fin 256} :
    strings.split s sep = [a, b] ↔
      s.bytes = a.bytes ++ sep :: b.bytes ∧ sep ∉ a.bytes ∧ sep ∉ b.bytes := by
  have hmap : strings.split s sep = [a, b] ↔ s.bytes.splitOn sep = [a.bytes, b.bytes] := by
    rw [← strings.map_bytes_split, ← List.map_inj_right fun _ _ h => Str.bytes_injective h]
    rfl
  rw [hmap]
  constructor
  · intro h
    have hjoin : s.bytes = a.bytes ++ sep :: b.bytes := by
      have hwhole : [sep].intercalate (s.bytes.splitOn sep) = s.bytes :=
        List.intercalate_splitOn sep
      rw [← hwhole, h]
      simp
    rw [hjoin, List.splitOn_append_cons_self] at h
    have hlen := congrArg List.length h
    rw [List.length_append] at hlen
    have ha := length_splitOn_pos (l := a.bytes) sep
    have hb := length_splitOn_pos (l := b.bytes) sep
    refine ⟨hjoin, fun hmem => ?_, fun hmem => ?_⟩
    · have htwo := two_le_length_splitOn hmem
      simp only [List.length_cons, List.length_nil] at hlen
      omega
    · have htwo := two_le_length_splitOn hmem
      simp only [List.length_cons, List.length_nil] at hlen
      omega
  · rintro ⟨hs, ha, hb⟩
    rw [hs, List.splitOn_append_cons_self_of_not_mem ha, List.splitOn_eq_singleton hb]

namespace APIv1

variable {base64 : MiscBase64} {strings : MiscSplit} {headers : Headers}
  {apiKey apiSecretKey : Str}

/-- `$API_KEY:$API_SECRET_KEY`. -/
def keyPair (apiKey apiSecretKey : Str) : Str := ⟨apiKey.bytes ++ colon :: apiSecretKey.bytes⟩

/-- Two keys that a string can hold with a colon between them and be cut into again. -/
structure Separable (apiKey apiSecretKey : Str) : Prop where
  key_ne : apiKey.size ≠ 0
  secret_ne : apiSecretKey.size ≠ 0
  colon_not_mem_key : colon ∉ apiKey.bytes
  colon_not_mem_secret : colon ∉ apiSecretKey.bytes

/-- The pair comes back from every headers that carry it. -/
def RoundTrip (base64 : MiscBase64) (strings : MiscSplit) (apiKey apiSecretKey : Str) : Prop :=
  ∀ headers : Headers,
    headers.find authBasicHeader
        = some (headerBasicPrefix ++ base64.encode (keyPair apiKey apiSecretKey)) →
      parseApiKeys base64 strings headers = .ok (apiKey, apiSecretKey)

/-- What is accepted starts with `Basic `. -/
def OnlyBasic (base64 : MiscBase64) (strings : MiscSplit) (headers : Headers) : Prop :=
  ∀ keys, parseApiKeys base64 strings headers = .ok keys →
    ∃ rest, headers.find authBasicHeader = some (headerBasicPrefix ++ rest)

/-- The Authorization header is six characters other than `Basic ` and then a pair of keys. -/
def OtherScheme (base64 : MiscBase64) (headers : Headers) : Prop :=
  ∃ start rest apiKey apiSecretKey, headers.find authBasicHeader = some (start ++ rest) ∧
    start.size = headerBasicPrefix.size ∧ start ≠ headerBasicPrefix ∧ 3 ≤ rest.size ∧
    base64.decode rest = keyPair apiKey apiSecretKey ∧ Separable apiKey apiSecretKey

/-- What the code looks at: a header of at least nine characters, without the first six. -/
theorem parseApiKeys_eq_ok_iff_substr {authHeader : Str}
    (hfind : headers.find authBasicHeader = some authHeader) :
    parseApiKeys base64 strings headers = .ok (apiKey, apiSecretKey) ↔
      headerBasicMinSize ≤ authHeader.size ∧
        base64.decode (authHeader.substr headerBasicPrefix.size) = keyPair apiKey apiSecretKey ∧
        Separable apiKey apiSecretKey := by
  unfold parseApiKeys
  rw [hfind]
  dsimp only
  constructor
  · intro h
    split_ifs at h with hsize
    split at h
    · rename_i key secret hsplit
      split_ifs at h with hempty
      obtain ⟨rfl, rfl⟩ := Prod.mk.inj (Except.ok.inj h)
      obtain ⟨hinfo, hkey, hsecret⟩ := strings.split_eq_pair_iff.mp hsplit
      obtain ⟨hkey0, hsecret0⟩ := not_or.mp hempty
      exact ⟨not_lt.mp hsize, Str.bytes_injective hinfo, hkey0, hsecret0, hkey, hsecret⟩
    · cases h
  · rintro ⟨hsize, hinfo, hkeys⟩
    have hsplit : strings.split (keyPair apiKey apiSecretKey) colon = [apiKey, apiSecretKey] :=
      strings.split_eq_pair_iff.mpr ⟨rfl, hkeys.colon_not_mem_key, hkeys.colon_not_mem_secret⟩
    rw [if_neg (not_lt.mpr hsize), hinfo, hsplit]
    exact if_neg (not_or.mpr ⟨hkeys.key_ne, hkeys.secret_ne⟩)

/-- **The rule of the code**: six characters and then at least three that decode to a pair. -/
theorem parseApiKeys_eq_ok_iff :
    parseApiKeys base64 strings headers = .ok (apiKey, apiSecretKey) ↔
      ∃ start rest, headers.find authBasicHeader = some (start ++ rest) ∧
        start.size = headerBasicPrefix.size ∧ 3 ≤ rest.size ∧
        base64.decode rest = keyPair apiKey apiSecretKey ∧ Separable apiKey apiSecretKey := by
  have hmin : headerBasicMinSize = headerBasicPrefix.size + 3 := rfl
  constructor
  · intro h
    cases hfind : headers.find authBasicHeader with
    | none =>
      unfold parseApiKeys at h
      rw [hfind] at h
      cases h
    | some authHeader =>
      obtain ⟨hsize, hinfo, hkeys⟩ := (parseApiKeys_eq_ok_iff_substr hfind).mp h
      have hcut := authHeader.first_append_substr headerBasicPrefix.size
      have hstart : (authHeader.first headerBasicPrefix.size).size = headerBasicPrefix.size :=
        Str.size_first (by omega)
      have hsum := Str.size_append (authHeader.first headerBasicPrefix.size)
        (authHeader.substr headerBasicPrefix.size)
      rw [hcut, hstart] at hsum
      exact ⟨_, _, congrArg some hcut.symm, hstart, by omega, hinfo, hkeys⟩
  · rintro ⟨start, rest, hfind, hstart, hrest, hinfo, hkeys⟩
    have hsum := Str.size_append start rest
    refine (parseApiKeys_eq_ok_iff_substr hfind).mpr ⟨by omega, ?_, hkeys⟩
    rw [← hstart, Str.substr_append, hinfo]

/-- A pair comes back from its header if and only if it is separable. -/
theorem roundTrip_iff (hkey : apiKey.size ≠ 0) (hsecret : apiSecretKey.size ≠ 0)
    (hcolon : colon ∉ apiKey.bytes) :
    RoundTrip base64 strings apiKey apiSecretKey ↔ colon ∉ apiSecretKey.bytes := by
  have hdecode := base64.decode_encode (keyPair apiKey apiSecretKey)
  constructor
  · intro h
    -- some headers do carry the pair
    have hok := h [(authBasicHeader, headerBasicPrefix ++ _)] rfl
    obtain ⟨start, rest, hfind, hstart, -, hinfo, hkeys⟩ := parseApiKeys_eq_ok_iff.mp hok
    exact hkeys.colon_not_mem_secret
  · intro hsep headers hfind
    have hsize := base64.size_encode (keyPair apiKey apiSecretKey)
    have hpair : (keyPair apiKey apiSecretKey).size = apiKey.size + (apiSecretKey.size + 1) :=
      List.length_append
    exact parseApiKeys_eq_ok_iff.mpr
      ⟨_, _, hfind, rfl, by omega, hdecode, hkey, hsecret, hcolon, hsep⟩

theorem onlyBasic_iff :
    OnlyBasic base64 strings headers ↔ ¬ OtherScheme base64 headers := by
  constructor
  · rintro h ⟨start, rest, key, secret, hfind, hstart, hne, hrest, hinfo, hkeys⟩
    obtain ⟨rest', hfind'⟩ := h (key, secret)
      (parseApiKeys_eq_ok_iff.mpr ⟨start, rest, hfind, hstart, hrest, hinfo, hkeys⟩)
    exact hne (Str.append_inj (Option.some.inj (hfind.symm.trans hfind')) hstart).1
  · rintro hother ⟨key, secret⟩ hok
    obtain ⟨start, rest, hfind, hstart, hrest, hinfo, hkeys⟩ := parseApiKeys_eq_ok_iff.mp hok
    by_cases hbasic : start = headerBasicPrefix
    · exact ⟨rest, hbasic ▸ hfind⟩
    · exact absurd ⟨start, rest, key, secret, hfind, hstart, hbasic, hrest, hinfo, hkeys⟩ hother

/-- **Credentials in a header.**  A pair of keys, the first without a colon, comes back from its
header if and only if the second has no colon either, and a header that is accepted is of the
scheme `Basic` if and only if it does not have a pair of keys after six other characters. -/
theorem roundTrip_and_onlyBasic_iff (base64 : MiscBase64) (strings : MiscSplit) (headers : Headers)
    (apiKey apiSecretKey : Str) (hkey : apiKey.size ≠ 0) (hsecret : apiSecretKey.size ≠ 0)
    (hcolon : colon ∉ apiKey.bytes) :
    RoundTrip base64 strings apiKey apiSecretKey ∧ OnlyBasic base64 strings headers ↔
      colon ∉ apiSecretKey.bytes ∧ ¬ OtherScheme base64 headers :=
  and_congr (roundTrip_iff hkey hsecret hcolon) onlyBasic_iff

/-- The headers with the pair that the test sends. -/
def hardcodeHeaders : Headers :=
  [(authBasicHeader, headerBasicPrefix ++ MiscBase64.standard.encode
    (keyPair (Str.ofString "_API_KEY_") (Str.ofString "_API_SECRET_KEY_")))]

theorem roundTrip_and_onlyBasic_iff_hardcode :
    parseApiKeys .standard .splitOn hardcodeHeaders
        = .ok (Str.ofString "_API_KEY_", Str.ofString "_API_SECRET_KEY_") ∧
      OnlyBasic .standard .splitOn hardcodeHeaders := by
  have hbasic : ¬ OtherScheme .standard hardcodeHeaders := by
    rintro ⟨start, rest, key, secret, hfind, hstart, hne, -⟩
    have hfind' : hardcodeHeaders.find authBasicHeader = some (headerBasicPrefix ++ _) := rfl
    exact hne (Str.append_inj (Option.some.inj (hfind.symm.trans hfind')) hstart).1
  obtain ⟨hround, honly⟩ := (roundTrip_and_onlyBasic_iff .standard .splitOn hardcodeHeaders
    (Str.ofString "_API_KEY_") (Str.ofString "_API_SECRET_KEY_") (by decide) (by decide)
    (by decide)).mpr ⟨by decide, hbasic⟩
  exact ⟨hround hardcodeHeaders rfl, honly⟩

/-- A secret with a colon in it is refused, and a pair after the name of another scheme is taken. -/
theorem not_roundTrip_colon_and_not_onlyBasic_token :
    ¬ RoundTrip .standard .splitOn (Str.ofString "a") (Str.ofString "b:c") ∧
      ¬ OnlyBasic .standard .splitOn
        [(Str.ofString "Authorization", Str.ofString "Token YTpi")] := by
  constructor
  · intro h
    have hok := h [(authBasicHeader, headerBasicPrefix ++ Str.ofString "YTpiOmM=")] (by decide)
    exact absurd hok (by decide)
  · intro h
    obtain ⟨rest, hfind⟩ := h (Str.ofString "a", Str.ofString "b") (by decide)
    have hbytes : (Str.ofString "Token YTpi").bytes = headerBasicPrefix.bytes ++ rest.bytes :=
      congrArg Str.bytes (Option.some.inj hfind)
    have hhead := congrArg List.head? hbytes
    rw [List.head?_append_of_ne_nil _ (by decide)] at hhead
    exact absurd hhead (by decide)

end APIv1

end Contentv1
