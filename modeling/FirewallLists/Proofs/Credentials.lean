import FirewallLists.Proofs.Validation
import FirewallLists.Rpc.Gate

/-
  Who is known by the token that a header shows. The header is trimmed before its text is looked up,
  and tokens are kept as they were configured: what counts is the token that has the trimmed text
  (`authenticate_bearer`). A token of an accepted configuration is therefore its caller's own if no
  blank stands around it, and of no use, or taken for another one, if one does
  (`bearer_known_by_trimmed_token`, `bearer_taken_for_other`).
-/

namespace FirewallLists

open Text

namespace Token

/-- Each character is visible ASCII, a blank or a tab, as in a header that is read as text. -/
def Sendable (text : String) : Prop :=
  ∀ c ∈ text.toList, (0x20 ≤ c.toNat ∧ c.toNat < 0x7F) ∨ c = '\t'

instance (text : String) : Decidable (Sendable text) :=
  List.decidableBAll _ text.toList

theorem ofHeader?_bearer (text : String) : ofHeader? ("Bearer " ++ text) =
    if Sendable text ∧ trim text ≠ "" then some (trim text) else none := by
  have hlist : ("Bearer " ++ text).toList = "Bearer ".toList ++ text.toList := String.toList_append
  have hstart : ("Bearer " ++ text).startsWith "Bearer " = true := by
    rw [String.startsWith_string_iff, hlist]
    exact List.prefix_append _ _
  have hsent : ("Bearer " ++ text).toList.all
      (fun c => (0x20 ≤ c.toNat && c.toNat < 0x7F) || c == '\t') = true ↔ Sendable text := by
    rw [hlist, List.all_append, Bool.and_eq_true]
    simp [Sendable]
  have hrest : String.ofList (("Bearer " ++ text).toList.drop 7) = text := by
    rw [hlist, List.drop_left' (by rfl), String.ofList_toList]
  rw [ofHeader?, hrest, hstart, Bool.and_true]
  simp only [hsent]
  by_cases hsendable : Sendable text
  · by_cases hblank : trim text = "" <;> simp [hsendable, hblank]
  · simp [hsendable]

end Token

/-! ## The token that counts -/

/-- What the services are run with under a configuration. -/
def Config.gate (c : Config) : Gate where
  settings := c.settings
  tokens := c.tokens

section Known

variable {directoryExists : String → Bool} {c : Config} {text : String}

theorem Gate.authenticate_eq_ok {gate : Gate} {token : Option String} {caller : Caller} :
    gate.authenticate token = .ok caller ↔
      token.bind (Token.resolve? gate.tokens) = some caller := by
  rw [authenticate]
  cases token.bind (Token.resolve? gate.tokens) <;> simp

/-- All who are not known are told the same. -/
theorem Gate.authenticate_eq_error {gate : Gate} {token : Option String}
    (h : ∀ caller, gate.authenticate token ≠ .ok caller) :
    gate.authenticate token = .error .unauthenticated := by
  cases hresolved : token.bind (Token.resolve? gate.tokens) with
  | none => rw [authenticate, hresolved]
  | some caller => exact absurd (authenticate_eq_ok.mpr hresolved) (h caller)

/-- A header shows the caller of the token that has its text without the blanks around it. -/
theorem authenticate_bearer (haccepted : c.problems directoryExists = []) {caller : Caller} :
    c.gate.authenticate (Token.ofHeader? ("Bearer " ++ text)) = .ok caller ↔
      Token.Sendable text ∧ ∃ t ∈ c.tokens, t.token = trim text ∧ t.caller = caller := by
  rw [Gate.authenticate_eq_ok, Token.ofHeader?_bearer]
  by_cases hshown : Token.Sendable text ∧ trim text ≠ ""
  · rw [if_pos hshown, Option.bind_some, and_iff_right hshown.1]
    exact Token.resolve?_eq_some_iff (Config.nodup_tokens haccepted)
  · rw [if_neg hshown, Option.bind_none]
    refine iff_of_false (by simp) ?_
    -- a token that has the trimmed text would be an empty one
    rintro ⟨hsendable, t, ht, htext, -⟩
    exact hshown ⟨hsendable, htext ▸ Config.token_ne_empty haccepted ht⟩

end Known

/-- A token of an accepted configuration is known, when a header shows it, by the token that has its
text without the blanks around it. If there are none around it, that is the token itself. If no
token has the trimmed text, or the text cannot be read from a header, nobody is known by it. -/
theorem bearer_known_by_trimmed_token {directoryExists : String → Bool} {c : Config}
    (haccepted : c.problems directoryExists = []) {t : Token} (ht : t ∈ c.tokens) :
    let shown := c.gate.authenticate (Token.ofHeader? ("Bearer " ++ t.token))
    (Token.Sendable t.token → trim t.token = t.token → shown = .ok t.caller) ∧
    (Token.Sendable t.token → ∀ other ∈ c.tokens, other.token = trim t.token →
      shown = .ok other.caller) ∧
    (¬(Token.Sendable t.token ∧ ∃ other ∈ c.tokens, other.token = trim t.token) →
      shown = .error .unauthenticated) := by
  intro shown
  have hother : Token.Sendable t.token → ∀ other ∈ c.tokens, other.token = trim t.token →
      shown = .ok other.caller := fun hsendable other hmem htext =>
    (authenticate_bearer haccepted).mpr ⟨hsendable, other, hmem, htext, rfl⟩
  refine ⟨fun hsendable htrim => hother hsendable t ht htrim.symm, hother, fun hunknown => ?_⟩
  refine Gate.authenticate_eq_error fun caller hcaller => hunknown ?_
  obtain ⟨hsendable, other, hmem, htext, -⟩ := (authenticate_bearer haccepted).mp hcaller
  exact ⟨hsendable, other, hmem, htext⟩

/-- An administrator's token is the administrator's own, although a tenant has it behind a blank. -/
theorem bearer_known_beside_padded_token :
    let c := Config.ofTokens { name := "edge" } [⟨" alpha", ⟨.user, 5⟩⟩, ⟨"alpha", ⟨.admin, 1⟩⟩]
    c.problems (fun _ => true) = [] ∧
      c.gate.authenticate (Token.ofHeader? "Bearer alpha") = .ok ⟨.admin, 1⟩ := by
  intro c
  have haccepted : c.problems (fun _ => true) = [] := by decide +kernel
  have ht : ⟨"alpha", ⟨.admin, 1⟩⟩ ∈ c.tokens := by decide +kernel
  exact ⟨haccepted, (bearer_known_by_trimmed_token haccepted ht).1 (by decide +kernel)
    (by decide +kernel)⟩

/-- The configuration is accepted and a header can show all its tokens. Yet the tenant is taken for
the administrator, and the node for nobody, since their tokens start with a blank. -/
theorem bearer_taken_for_other :
    let c := Config.ofTokens { name := "edge" }
      [⟨" alpha", ⟨.user, 5⟩⟩, ⟨"alpha", ⟨.admin, 1⟩⟩, ⟨" beta", ⟨.node, 3⟩⟩]
    c.problems (fun _ => true) = [] ∧ (∀ t ∈ c.tokens, Token.Sendable t.token) ∧
      c.gate.authenticate (Token.ofHeader? ("Bearer " ++ " alpha")) = .ok ⟨.admin, 1⟩ ∧
      c.gate.authenticate (Token.ofHeader? ("Bearer " ++ " beta")) = .error .unauthenticated := by
  decide +kernel

end FirewallLists
