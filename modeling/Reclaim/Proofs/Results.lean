/-! Computations that may fail: what a success or a failure says of their parts, what they can fail with,
and when two of them answer alike. -/

set_option autoImplicit false

namespace Reclaim

section Parts

variable {ε δ α β : Type} {result : Except ε α}

theorem ok_of_bind {next : α → Except ε β} {value : β} (bound : (result >>= next) = .ok value) :
    ∃ found, result = .ok found ∧ next found = .ok value := by
  cases result with
  | error error => cases bound
  | ok found => exact ⟨found, rfl, bound⟩

theorem bind_eq_error_iff {next : α → Except ε β} {error : ε} : (result >>= next) = .error error ↔
    result = .error error ∨ ∃ found, result = .ok found ∧ next found = .error error := by
  cases result with
  | error other =>
    constructor
    · intro failed
      exact .inl (congrArg Except.error (Except.error.inj failed))
    · rintro (failed | ⟨_, same, _⟩)
      · exact congrArg Except.error (Except.error.inj failed)
      · cases same
  | ok found =>
    constructor
    · exact fun failed => .inr ⟨found, rfl, failed⟩
    · rintro (failed | ⟨_, same, failed⟩)
      · cases failed
      · cases same
        exact failed

theorem ok_of_map {change : α → β} {value : β} (mapped : result.map change = .ok value) :
    ∃ found, result = .ok found ∧ change found = value := by
  cases result with
  | error error => cases mapped
  | ok found => exact ⟨found, rfl, Except.ok.inj mapped⟩

theorem error_of_map {change : α → β} {error : ε} (mapped : result.map change = .error error) :
    result = .error error := by
  cases result with
  | error other => exact congrArg Except.error (Except.error.inj mapped)
  | ok found => cases mapped

theorem ok_of_mapError {change : ε → δ} {value : α} (mapped : result.mapError change = .ok value) :
    result = .ok value := by
  cases result with
  | error error => cases mapped
  | ok found => exact congrArg Except.ok (Except.ok.inj mapped)

theorem error_of_mapError {change : ε → δ} {error : δ} (mapped : result.mapError change = .error error) :
    ∃ cause, result = .error cause ∧ change cause = error := by
  cases result with
  | error cause => exact ⟨cause, rfl, Except.error.inj mapped⟩
  | ok found => cases mapped

theorem ok_of_any {check : α → Bool} (checked : result.toOption.any check = true) :
    ∃ value, result = .ok value ∧ check value = true := by
  cases result with
  | error error => cases checked
  | ok value => exact ⟨value, rfl, checked⟩

end Parts

def FailsOnly {ε α : Type} (kind : ε → Prop) (result : Except ε α) : Prop :=
  ∀ error, result = .error error → kind error

namespace FailsOnly

variable {ε α β : Type} {kind : ε → Prop} {result : Except ε α}

theorem ok {value : α} : FailsOnly kind (.ok value) := fun _ failed => nomatch failed

theorem error {error : ε} (allowed : kind error) : FailsOnly kind (.error error : Except ε α) := by
  intro other failed
  cases failed
  exact allowed

theorem bind {next : α → Except ε β} (only : FailsOnly kind result)
    (later : ∀ value, FailsOnly kind (next value)) : FailsOnly kind (result >>= next) := by
  intro error failed
  obtain failed | ⟨value, _, failed⟩ := bind_eq_error_iff.mp failed
  · exact only error failed
  · exact later value error failed

theorem map {change : α → β} (only : FailsOnly kind result) : FailsOnly kind (result.map change) := by
  intro error failed
  exact only error (error_of_map failed)

end FailsOnly

def Alike {ε α β : Type} (related : α → β → Prop) : Except ε α → Except ε β → Prop
  | .ok first, .ok second => related first second
  | .error first, .error second => first = second
  | _, _ => False

namespace Alike

variable {ε δ α β γ κ : Type} {related : α → β → Prop} {first : Except ε α} {second : Except ε β}

theorem cases (alike : Alike related first second) :
    (∃ error, first = .error error ∧ second = .error error) ∨
      ∃ value other, first = .ok value ∧ second = .ok other ∧ related value other := by
  cases first <;> cases second
  case error.error error other =>
    obtain rfl : error = other := alike
    exact .inl ⟨error, rfl, rfl⟩
  case ok.ok value other => exact .inr ⟨value, other, rfl, rfl, alike⟩
  case error.ok | ok.error => cases alike

theorem mapError (alike : Alike related first second) (change : ε → δ) :
    Alike related (first.mapError change) (second.mapError change) := by
  obtain ⟨error, rfl, rfl⟩ | ⟨value, other, rfl, rfl, same⟩ := alike.cases
  · exact rfl
  · exact same

theorem map {others : γ → κ → Prop} {left : α → γ} {right : β → κ}
    (alike : Alike related first second)
    (kept : ∀ value other, related value other → others (left value) (right other)) :
    Alike others (first.map left) (second.map right) := by
  obtain ⟨error, rfl, rfl⟩ | ⟨value, other, rfl, rfl, same⟩ := alike.cases
  · exact rfl
  · exact kept value other same

end Alike

/-- The second computation fails as the first does, with a changed error, or gives a related result. -/
def Echoes {ε δ α β : Type} (change : ε → δ) (related : α → β → Prop) : Except ε α → Except δ β → Prop
  | .ok first, .ok second => related first second
  | .error first, .error second => change first = second
  | _, _ => False

namespace Echoes

variable {ε δ ε' δ' α β γ κ : Type} {change : ε → δ} {related : α → β → Prop} {others : γ → κ → Prop}
  {first : Except ε α} {second : Except δ β}

theorem cases (echoes : Echoes change related first second) :
    (∃ error, first = .error error ∧ second = .error (change error)) ∨
      ∃ value other, first = .ok value ∧ second = .ok other ∧ related value other := by
  cases first <;> cases second
  case error.error error other =>
    obtain rfl : change error = other := echoes
    exact .inl ⟨error, rfl, rfl⟩
  case ok.ok value other => exact .inr ⟨value, other, rfl, rfl, echoes⟩
  case error.ok | ok.error => cases echoes

theorem same {result : Except ε α} : Echoes id Eq result result := by
  cases result <;> rfl

theorem imp {more : α → β → Prop} (echoes : Echoes change related first second)
    (kept : ∀ value other, first = .ok value → second = .ok other → related value other → more value other) :
    Echoes change more first second := by
  obtain ⟨error, rfl, rfl⟩ | ⟨value, other, rfl, rfl, here⟩ := echoes.cases
  · exact rfl
  · exact kept value other rfl rfl here

theorem bind {next : α → Except ε γ} {next' : β → Except δ κ} (echoes : Echoes change related first second)
    (later : ∀ value other, related value other → Echoes change others (next value) (next' other)) :
    Echoes change others (first >>= next) (second >>= next') := by
  obtain ⟨error, rfl, rfl⟩ | ⟨value, other, rfl, rfl, here⟩ := echoes.cases
  · exact rfl
  · exact later value other here

theorem map {left : α → γ} {right : β → κ} (echoes : Echoes change related first second)
    (kept : ∀ value other, related value other → others (left value) (right other)) :
    Echoes change others (first.map left) (second.map right) := by
  obtain ⟨error, rfl, rfl⟩ | ⟨value, other, rfl, rfl, here⟩ := echoes.cases
  · exact rfl
  · exact kept value other here

theorem mapError {left : ε → ε'} {right : δ → δ'} {change' : ε' → δ'}
    (echoes : Echoes change related first second) (commutes : ∀ error, change' (left error) = right (change error)) :
    Echoes change' related (first.mapError left) (second.mapError right) := by
  obtain ⟨error, rfl, rfl⟩ | ⟨value, other, rfl, rfl, here⟩ := echoes.cases
  · exact commutes error
  · exact here

end Echoes

end Reclaim
