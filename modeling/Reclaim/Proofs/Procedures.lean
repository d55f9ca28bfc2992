/-! Procedures that write to a state as they go. What has been written stays written where a procedure fails,
so that a failure leaves the state as it was only if nothing has been written before it. -/

set_option autoImplicit false

namespace Reclaim

/-- A procedure comes to the result of a computation of the next state. A failure of a kind leaves the state as
it was; of the others nothing is said but that they are those of the computation. -/
def CarriesOut {σ ε : Type} (kind : ε → Prop) (procedure : EStateM ε σ Unit) (before : σ) :
    Except ε σ → Prop
  | .ok after => procedure.run before = .ok () after
  | .error error => ∃ left, procedure.run before = .error error left ∧ (kind error → left = before)

def refuseIf {σ ε : Type} (condition : Prop) [Decidable condition] (error : ε) : EStateM ε σ Unit :=
  if condition then throw error else return

theorem run_forM_modify {σ ε α : Type} (change : α → σ → σ) (items : List α) (before : σ) :
    (items.forM fun item => (modify (change item) : EStateM ε σ PUnit)).run before =
      .ok ⟨⟩ (items.foldl (fun state item => change item state) before) := by
  induction items generalizing before with
  | nil => rfl
  | cons item rest ih => exact ih (change item before)

namespace CarriesOut

variable {σ ε δ α : Type} {kind : ε → Prop} {before : σ} {result : Except ε σ} {error : ε}

theorem fails : CarriesOut kind (throw error) before (.error error) :=
  ⟨before, rfl, fun _ => rfl⟩

theorem reads {next : σ → EStateM ε σ Unit} (later : CarriesOut kind (next before) before result) :
    CarriesOut kind (get >>= next) before result :=
  later

theorem checks {condition : Prop} [Decidable condition] {next : Unit → EStateM ε σ Unit}
    (later : ¬condition → CarriesOut kind (next ()) before result) :
    CarriesOut kind (refuseIf condition error >>= next) before
      (if condition then .error error else result) := by
  unfold refuseIf
  split
  · exact fails
  next passes => exact later passes

theorem computes {computed : Except ε α} {next : α → EStateM ε σ Unit} {results : α → Except ε σ}
    (later : ∀ value, CarriesOut kind (next value) before (results value)) :
    CarriesOut kind (ofExcept computed >>= next) before (computed >>= results) := by
  cases computed with
  | error error => exact fails
  | ok value => exact later value

theorem looks {part : EStateM ε σ α} {next : α → EStateM ε σ Unit} {value : α}
    (ran : part.run before = .ok value before) (later : CarriesOut kind (next value) before result) :
    CarriesOut kind (part >>= next) before result := by
  unfold CarriesOut at later ⊢
  rw [EStateM.run_bind, ran]
  exact later

/-- What has been written before a failure is not taken back. -/
theorem writes {change : σ → α × σ} {next : α → EStateM ε σ Unit}
    (later : CarriesOut (fun _ => False) (next (change before).1) (change before).2 result) :
    CarriesOut (fun _ => False) (modifyGet change >>= next) before result := by
  cases result with
  | ok after => exact later
  | error error =>
    obtain ⟨left, run, _⟩ := later
    exact ⟨left, run, nofun⟩

theorem imp {fewer : ε → Prop} {procedure : EStateM ε σ Unit} (carries : CarriesOut kind procedure before result)
    (kept : ∀ error, result = .error error → fewer error → kind error) :
    CarriesOut fewer procedure before result := by
  cases result with
  | ok after => exact carries
  | error error =>
    obtain ⟨left, run, same⟩ := carries
    exact ⟨left, run, fun refuses => same (kept error rfl refuses)⟩

theorem rephrased {kinds : δ → Prop} {change : ε → δ} {procedure : EStateM ε σ Unit}
    (carries : CarriesOut kind procedure before result) (kept : ∀ error, kinds (change error) → kind error) :
    CarriesOut kinds (procedure.adaptExcept change) before (result.mapError change) := by
  cases result with
  | ok after =>
    show (procedure.adaptExcept change).run before = .ok () after
    rw [EStateM.run_adaptExcept, show procedure.run before = .ok () after from carries]
  | error error =>
    obtain ⟨left, run, same⟩ := carries
    refine ⟨left, ?_, fun refuses => same (kept error refuses)⟩
    rw [EStateM.run_adaptExcept, run]

end CarriesOut

end Reclaim
