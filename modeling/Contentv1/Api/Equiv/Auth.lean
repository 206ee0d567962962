import Contentv1.Api.Auth

/-!
# Who gets through

A well-formed header is the bearer prefix and then a token.  `_parseBearer` compares the size of the
header and cuts the prefix off without looking at it.

* `auth_eq_ok_iff` is the rule as the code has it.
* `auth_iff_wellFormed_iff`: a request gets through exactly with a well-formed header,
  unless its header has a good token after seven other characters.
-/

namespace Contentv1.APIv1

variable {hash : Str → Str} {headers : Headers} {token : Str}

/-- The Authorization header is the bearer prefix followed by a token. -/
def WellFormed (hash : Str → Str) (headers : Headers) : Prop :=
  ∃ token, headers.find authBasicHeader = some (headerBearerPrefix ++ token) ∧
    token.size = 16 ∧ token.lastN 5 = (hash (token.first 11 ++ pepper)).lastN 5

/-- The Authorization header is something else of the size of the prefix, followed by a token. -/
def OtherPrefix (hash : Str → Str) (headers : Headers) : Prop :=
  ∃ start token, headers.find authBasicHeader = some (start ++ token) ∧
    start.size = headerBearerPrefix.size ∧ start ≠ headerBearerPrefix ∧ checkToken hash token = true

theorem checkToken_iff :
    checkToken hash token = true ↔
      token.size = 16 ∧ token.lastN 5 = (hash (token.first 11 ++ pepper)).lastN 5 := by
  unfold checkToken tokenSize
  split_ifs with hsize
  · exact iff_of_false id fun h => hsize h.1
  · rw [beq_iff_eq, eq_comm]
    exact (and_iff_right (not_not.mp hsize)).symm

/-- A token is found in a header of the right size, after as many characters as the prefix has. -/
theorem parseBearer_eq_ok_iff :
    parseBearer headers = .ok token ↔
      ∃ start, headers.find authBasicHeader = some (start ++ token) ∧
        start.size = headerBearerPrefix.size ∧ token.size = 16 := by
  unfold parseBearer
  cases headers.find authBasicHeader with
  | none => simp
  | some authHeader =>
    dsimp only
    constructor
    · intro h
      split_ifs at h with hsize
      obtain rfl := Except.ok.inj h
      have hcut := authHeader.first_append_substr headerBearerPrefix.size
      have hlen : (authHeader.first headerBearerPrefix.size).size = headerBearerPrefix.size := by
        refine Str.size_first ?_
        unfold headerBearerExactSize at hsize
        omega
      have hrest := Str.size_append (authHeader.first headerBearerPrefix.size)
        (authHeader.substr headerBearerPrefix.size)
      rw [hcut, hlen] at hrest
      refine ⟨_, by rw [hcut], hlen, ?_⟩
      unfold headerBearerExactSize tokenSize at hsize
      omega
    · rintro ⟨start, hheader, hstart, htoken⟩
      obtain rfl := Option.some.inj hheader
      rw [if_neg, ← hstart, Str.substr_append]
      rw [not_not, Str.size_append, hstart, htoken]
      rfl

/-- **The rule of the code**: seven characters and then a good token. -/
theorem auth_eq_ok_iff :
    auth hash headers = .ok () ↔
      ∃ start token, headers.find authBasicHeader = some (start ++ token) ∧
        start.size = headerBearerPrefix.size ∧ checkToken hash token = true := by
  have hparse : auth hash headers = .ok () ↔
      ∃ token, parseBearer headers = .ok token ∧ checkToken hash token = true := by
    unfold auth
    cases parseBearer headers with
    | error errorStr => simp
    | ok token => simp
  rw [hparse]
  simp only [parseBearer_eq_ok_iff]
  constructor
  · rintro ⟨token, ⟨start, hheader, hstart, -⟩, htoken⟩
    exact ⟨start, token, hheader, hstart, htoken⟩
  · rintro ⟨start, token, hheader, hstart, htoken⟩
    exact ⟨token, ⟨start, hheader, hstart, (checkToken_iff.mp htoken).1⟩, htoken⟩

/-- What the rule lets through is well formed or has another prefix. -/
theorem auth_eq_ok_iff_or :
    auth hash headers = .ok () ↔ WellFormed hash headers ∨ OtherPrefix hash headers := by
  rw [auth_eq_ok_iff]
  constructor
  · rintro ⟨start, token, hheader, hstart, htoken⟩
    by_cases hbearer : start = headerBearerPrefix
    · subst hbearer
      exact Or.inl ⟨token, hheader, checkToken_iff.mp htoken⟩
    · exact Or.inr ⟨start, token, hheader, hstart, hbearer, htoken⟩
  · rintro (⟨token, hheader, htoken⟩ | ⟨start, token, hheader, hstart, -, htoken⟩)
    · exact ⟨_, token, hheader, rfl, checkToken_iff.mpr htoken⟩
    · exact ⟨start, token, hheader, hstart, htoken⟩

/-- A header with another prefix is not well formed. -/
theorem OtherPrefix.not_wellFormed (h : OtherPrefix hash headers) : ¬ WellFormed hash headers := by
  rintro ⟨token', hheader', -⟩
  obtain ⟨start, token, hheader, hstart, hne, -⟩ := h
  exact hne (Str.append_inj (Option.some.inj (hheader.symm.trans hheader')) hstart).1

/-! ### The routes -/

/-- A request reaches the handler of a route with `need_auth` if `_auth` accepts it. -/
theorem handlerWrap_ne_accessDenied_iff {ρ : Type} (handler : APIRequest → Except Str ρ)
    (req : APIRequest) :
    (∀ mess, handlerWrap hash true handler req ≠ .accessDenied mess) ↔
      auth hash req.headers = .ok () := by
  unfold handlerWrap
  dsimp only
  rw [if_pos rfl]
  cases auth hash req.headers with
  | error errorStr => simp
  | ok u =>
    cases handler req with
    | error _ => simp
    | ok res => simp

/-- **Who gets through.**  On every headers, `_auth` accepts exactly the well-formed ones, if and
only if the header does not have a token after another prefix. -/
theorem auth_iff_wellFormed_iff (hash : Str → Str) (headers : Headers) :
    (auth hash headers = .ok () ↔ WellFormed hash headers) ↔ ¬ OtherPrefix hash headers := by
  rw [auth_eq_ok_iff_or]
  constructor
  · exact fun hiff hother => hother.not_wellFormed (hiff.mp (Or.inr hother))
  · exact fun hother => or_iff_left hother

/-- A token after the prefix of another scheme, with a hash that is the same for all strings. -/
def otherScheme : Headers :=
  [(Str.ofString "Authorization", Str.ofString "Token: abcdefghijkAAAAA")]

/-- It is accepted. -/
theorem not_auth_iff_wellFormed_otherScheme :
    ¬ (auth (fun _ => Str.ofString "AAAAA") otherScheme = .ok () ↔
      WellFormed (fun _ => Str.ofString "AAAAA") otherScheme) := by
  rintro ⟨hwell, -⟩
  obtain ⟨token, hheader, -⟩ := hwell (by decide)
  have hbytes : (Str.ofString "Token: abcdefghijkAAAAA").bytes
      = headerBearerPrefix.bytes ++ token.bytes := congrArg Str.bytes (Option.some.inj hheader)
  have hstart := congrArg (List.take 7) hbytes
  rw [List.take_append_of_le_length (by decide)] at hstart
  exact absurd hstart (by decide)

end Contentv1.APIv1
