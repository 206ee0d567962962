import Contentv1.Api.Credentials
import Contentv1.Api.Equiv.Auth

/-!
# Which tokens are accepted

`_genToken` puts a token together from three pieces of up to five, six and up to five characters,
and `_checkToken` cuts one of sixteen after the eleventh.

`tokensAccepted_iff`: what is issued for a pair of keys is accepted exactly if the key has at least
four characters, for base64 of a shorter one is only four long.
-/

namespace Contentv1

namespace APIv1

variable {base64 : MiscBase64} {hash : Str → Str} {apiKeys : ApiKeys}
  {randomStr apiKey apiSecretKey : Str}

/-- A token is issued for a pair of keys if it is registered, and only then, and it is accepted by
itself and in a header. -/
def TokensAccepted (base64 : MiscBase64) (hash : Str → Str) (apiKeys : ApiKeys)
    (randomStr apiKey apiSecretKey : Str) : Prop :=
  (apiKeys[apiKey]? = some apiSecretKey →
    ∃ token, genToken base64 hash apiKeys randomStr apiKey apiSecretKey
        = some (token, tokenExpiresIn) ∧
      token.size = tokenSize ∧ checkToken hash token = true ∧
      ∀ headers : Headers, headers.find authBasicHeader = some (headerBearerPrefix ++ token) →
        auth hash headers = .ok ()) ∧
  (apiKeys[apiKey]? ≠ some apiSecretKey →
    genToken base64 hash apiKeys randomStr apiKey apiSecretKey = none)

theorem genToken_of_registered (h : apiKeys[apiKey]? = some apiSecretKey) :
    genToken base64 hash apiKeys randomStr apiKey apiSecretKey =
      some ((base64.encode apiKey).lastN 5 ++ randomStr ++
        (hash ((base64.encode apiKey).lastN 5 ++ randomStr ++ pepper)).lastN 5,
        tokenExpiresIn) := by
  unfold genToken
  rw [h]
  exact if_neg (not_not.mpr rfl)

theorem genToken_of_not_registered (h : apiKeys[apiKey]? ≠ some apiSecretKey) :
    genToken base64 hash apiKeys randomStr apiKey apiSecretKey = none := by
  unfold genToken
  cases hget : apiKeys[apiKey]? with
  | none => rfl
  | some secret => exact if_pos fun heq => h (hget.trans (congrArg some heq))

/-- The piece of the key has five characters from four characters of the key on. -/
theorem size_lastN_encode_eq_iff :
    ((base64.encode apiKey).lastN 5).size = 5 ↔ 4 ≤ apiKey.size := by
  rw [Str.size_lastN, base64.size_encode]
  omega

/-- A body of eleven characters and the hash of it are a token. -/
theorem checkToken_append {tokenBody : Str} (hbody : tokenBody.size = 11)
    (hhash : 5 ≤ (hash (tokenBody ++ pepper)).size) :
    checkToken hash (tokenBody ++ (hash (tokenBody ++ pepper)).lastN 5) = true := by
  have hsize : ((hash (tokenBody ++ pepper)).lastN 5).size = 5 := by
    rw [Str.size_lastN]
    omega
  refine checkToken_iff.mpr ⟨by rw [Str.size_append, hbody, hsize], ?_⟩
  rw [Str.lastN_append hsize, ← hbody, Str.first_append]

/-- **Every issued token is accepted**, of the keys with at least four characters. -/
theorem tokensAccepted_iff (base64 : MiscBase64) (hash : Str → Str) (apiKeys : ApiKeys)
    (randomStr apiKey apiSecretKey : Str) (hhash : ∀ s, 5 ≤ (hash s).size)
    (hrandom : randomStr.size = 6) :
    TokensAccepted base64 hash apiKeys randomStr apiKey apiSecretKey ↔
      (apiKeys[apiKey]? = some apiSecretKey → 4 ≤ apiKey.size) := by
  have hpiece : ((base64.encode apiKey).lastN 5).size = 5 ↔ 4 ≤ apiKey.size :=
    size_lastN_encode_eq_iff
  constructor
  · rintro ⟨haccepted, -⟩ hregistered
    obtain ⟨token, hgen, hsize, -⟩ := haccepted hregistered
    rw [genToken_of_registered hregistered] at hgen
    obtain ⟨rfl, -⟩ := Prod.mk.inj (Option.some.inj hgen)
    have hlast := hhash ((base64.encode apiKey).lastN 5 ++ randomStr ++ pepper)
    simp only [Str.size_append, Str.size_lastN, tokenSize] at hsize hpiece
    omega
  · intro hkey
    refine ⟨fun hregistered => ?_, genToken_of_not_registered⟩
    have hbody : ((base64.encode apiKey).lastN 5 ++ randomStr).size = 11 := by
      rw [Str.size_append, hpiece.mpr (hkey hregistered), hrandom]
    have htoken := checkToken_append hbody (hhash _)
    refine ⟨_, genToken_of_registered hregistered, (checkToken_iff.mp htoken).1, htoken, ?_⟩
    exact fun headers hfind => auth_eq_ok_iff.mpr ⟨_, _, hfind, rfl, htoken⟩

/-- The pair that is hardcoded. -/
theorem tokensAccepted_iff_hardcode :
    TokensAccepted .standard (fun _ => Str.ofString "MTIzNA==")
        ((∅ : ApiKeys).insert (Str.ofString "_API_KEY_") (Str.ofString "_API_SECRET_KEY_"))
        (Str.ofString "Ab3dE6") (Str.ofString "_API_KEY_") (Str.ofString "_API_SECRET_KEY_") :=
  (tokensAccepted_iff .standard _ _ _ _ _ (fun _ => by decide) (by decide)).mpr
    fun _ => by decide

/-- A key of three characters gets a token of fifteen. -/
theorem not_tokensAccepted_shortKey :
    ¬ TokensAccepted .standard (fun _ => Str.ofString "MTIzNA==")
        ((∅ : ApiKeys).insert (Str.ofString "key") (Str.ofString "secret"))
        (Str.ofString "Ab3dE6") (Str.ofString "key") (Str.ofString "secret") := by
  rintro ⟨haccepted, -⟩
  have hregistered : ((∅ : ApiKeys).insert (Str.ofString "key")
      (Str.ofString "secret"))[Str.ofString "key"]? = some (Str.ofString "secret") := by
    rw [OrdMap.getElem?_insert, if_pos rfl]
  obtain ⟨token, hgen, hsize, -⟩ := haccepted hregistered
  rw [genToken_of_registered hregistered] at hgen
  obtain ⟨rfl, -⟩ := Prod.mk.inj (Option.some.inj hgen)
  exact absurd hsize (by decide)

end APIv1

end Contentv1
