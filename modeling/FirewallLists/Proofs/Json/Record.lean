import FirewallLists.Json.Record
import Mathlib.Data.List.Forall2

/-
  Records that are read alike. If the fields of one record correspond to those of another, then the
  one is read from a text exactly where the other is, and what is read corresponds too
  (`closedRecord_carried`).
-/

namespace FirewallLists.Json

open Reader

variable {σ τ : Type}

/-- The fields have one name and one kind of value, and what a value does to a record it also does
to what the record is carried to. -/
structure RecordField.Carried (carry : σ → τ) (field : RecordField σ) (field' : RecordField τ) :
    Prop where
  name : field'.name = field.name
  required : field'.required = field.required
  read : ∃ (α : Type) (value : Reader α) (set : α → σ → σ) (set' : α → τ → τ),
    field.read = set <$> value ∧ field'.read = set' <$> value ∧
      ∀ a s, set' a (carry s) = carry (set a s)

namespace RecordField.Carried

variable {carry : σ → τ} (name : String)

theorem integer {set : Int → σ → σ} {set' : Int → τ → τ}
    (h : ∀ n s, set' n (carry s) = carry (set n s)) :
    RecordField.Carried carry (.integer name set) (.integer name set') :=
  ⟨rfl, rfl, Int, Reader.integer, set, set', rfl, rfl, h⟩

theorem text {set : String → σ → σ} {set' : String → τ → τ}
    (h : ∀ a s, set' a (carry s) = carry (set a s)) :
    RecordField.Carried carry (.text name set) (.text name set') :=
  ⟨rfl, rfl, String, Reader.text, set, set', rfl, rfl, h⟩

end RecordField.Carried

/-! ## Faults -/

theorem map_misfit (f : σ → τ) : f <$> (misfit : Reader σ) = misfit := rfl

theorem map_nested (f : σ → τ) (r : Reader σ) : f <$> nested r = nested (f <$> r) := by
  funext limits
  show f <$> nested r limits = nested (f <$> r) limits
  unfold nested
  split <;> rfl

theorem map_wrongShape (f : σ → τ) : f <$> (wrongShape : Reader σ) = wrongShape := by
  unfold wrongShape
  rw [map_bind]
  refine bind_congr fun c => ?_
  split
  case h_5 | h_6 | h_8 => rfl
  case h_7 =>
    split
    · simp only [map_bind, map_misfit]
    · rfl
  all_goals simp only [map_bind, map_misfit]

/-! ## Members -/

section

variable {carry : σ → τ} {fields : List (RecordField σ)} {fields' : List (RecordField τ)}
  (h : List.Forall₂ (RecordField.Carried carry) fields fields')

include h

theorem find?_carried (name : String) :
    Option.Rel (RecordField.Carried carry) (fields.find? (·.name == name))
      (fields'.find? (·.name == name)) := by
  induction h with
  | nil => exact .none
  | cons hfield _ ih =>
    rw [List.find?_cons, List.find?_cons, hfield.name]
    split
    · exact .some hfield
    · exact ih

theorem any_carried (p : String → Bool → Bool) :
    (fields'.any fun field => p field.name field.required) =
      fields.any fun field => p field.name field.required := by
  induction h with
  | nil => rfl
  | cons hfield _ ih => rw [List.any_cons, List.any_cons, hfield.name, hfield.required, ih]

theorem knownMember_carried {ρ : Type} (other : String → ρ → Reader ρ) (name : String)
    (seen : List String) (s : σ) (r : ρ) :
    knownMember fields' other name (seen, carry s, r) =
      Prod.map id (Prod.map carry id) <$> knownMember fields other name (seen, s, r) := by
  have hfind := find?_carried h name
  unfold knownMember
  dsimp only
  revert hfind
  cases fields.find? (·.name == name) <;> cases fields'.find? (·.name == name) <;> intro hfind
  · simp only [map_bind, map_pure]
    rfl
  · cases hfind
  · cases hfind
  · next field field' =>
    cases hfind with
    | some hfield =>
      obtain ⟨α, value, set, set', hread, hread', hset⟩ := hfield.read
      dsimp only
      split
      · rfl
      · rw [hread, hread']
        simp only [behindName, bind_assoc, map_bind, map_pure, bind_map_left, hset]
        rfl

theorem members_carried {ρ : Type} (other : String → ρ → Reader ρ) (bound : Nat) (first : Bool)
    (t : List String × σ × ρ) :
    members (knownMember fields' other) bound first (Prod.map id (Prod.map carry id) t) =
      Prod.map id (Prod.map carry id) <$> members (knownMember fields other) bound first t := by
  induction bound generalizing first t with
  | zero => rfl
  | succ bound ih =>
    obtain ⟨seen, s, r⟩ := t
    unfold members
    simp only [map_bind]
    refine bind_congr fun name => ?_
    cases name with
    | none => simp only [map_bind, map_pure]
    | some name =>
      simp only [Prod.map_apply, id, knownMember_carried h, map_bind, bind_map_left, ← ih]

theorem objectBody_carried {ρ : Type} (other : String → ρ → Reader ρ)
    (t : List String × σ × ρ) :
    objectBody (knownMember fields' other) (Prod.map id (Prod.map carry id) t) =
      Prod.map id (Prod.map carry id) <$> objectBody (knownMember fields other) t := by
  unfold objectBody
  rw [map_bind]
  exact bind_congr fun limits => members_carried h other limits.length true t

theorem positional_carried (first : Bool) (s : σ) :
    positional fields' first (carry s) = carry <$> positional fields first s := by
  induction h generalizing first s with
  | nil =>
    unfold positional
    simp only [map_bind, map_pure]
  | @cons field field' rest rest' hfield hrest ih =>
    obtain ⟨α, value, set, set', hread, hread', hset⟩ := hfield.read
    unfold positional
    rw [any_carried (.cons hfield hrest) fun _ required => required, hread, hread', map_bind]
    refine bind_congr fun more => ?_
    split
    · simp only [map_bind, bind_map_left, hset, ih]
    · split
      · rfl
      · simp only [map_bind, map_pure]

/-- The records are read alike, however they are written. -/
theorem closedRecord_carried (init : σ) :
    closedRecord fields' (carry init) = carry <$> closedRecord fields init := by
  have hbody : objectBody (knownMember fields' fun _ _ => skip) ([], carry init, ()) =
      Prod.map id (Prod.map carry id) <$>
        objectBody (knownMember fields fun _ _ => skip) ([], init, ()) :=
    objectBody_carried h _ ([], init, ())
  unfold closedRecord
  rw [map_bind]
  refine bind_congr fun c => ?_
  split
  · rw [map_nested, map_bind]
    refine congrArg nested (bind_congr fun _ => ?_)
    rw [hbody, bind_map_left, map_bind]
    refine bind_congr fun ⟨seen, s, _⟩ => ?_
    dsimp only [Prod.map_apply, id]
    rw [any_carried h fun name required => required && !seen.contains name]
    split <;> rfl
  · rw [map_nested, map_bind]
    exact congrArg nested (bind_congr fun _ => positional_carried h true init)
  · rw [map_wrongShape]

end

end FirewallLists.Json
