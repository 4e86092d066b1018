import Codebox.Fault

/-! # Runs that write

A run writes items as it goes and ends with a value or a fault. What it wrote
before a fault stays written.
-/

namespace Codebox

/-- What a run wrote, in order, and how it ended. -/
structure Run (ω α : Type) where
  written : List ω
  outcome : Except Fault α

namespace Run

variable {ω α β : Type}

/-- One run after the other; a fault ends both. -/
def andThen (first : Run ω α) (next : α → Run ω β) : Run ω β :=
  match first.outcome with
  | .ok value =>
    let second := next value
    ⟨first.written ++ second.written, second.outcome⟩
  | .error fault => ⟨first.written, .error fault⟩

instance : Monad (Run ω) where
  pure value := ⟨[], .ok value⟩
  bind := andThen

/-- Writes one item. -/
def write (item : ω) : Run ω Unit := ⟨[item], .ok ()⟩

/-- A computation that writes nothing. -/
def lift (outcome : Except Fault α) : Run ω α := ⟨[], outcome⟩

@[simp] theorem outcome_pure (value : α) : (pure value : Run ω α).outcome = .ok value := rfl

@[simp] theorem written_pure (value : α) : (pure value : Run ω α).written = [] := rfl

@[simp] theorem outcome_write (item : ω) : (write item).outcome = .ok () := rfl

@[simp] theorem outcome_lift (outcome : Except Fault α) :
    (lift outcome : Run ω α).outcome = outcome := rfl

@[simp] theorem written_lift (outcome : Except Fault α) :
    (lift outcome : Run ω α).written = [] := rfl

/-- How two runs end is decided by how each ends. -/
theorem outcome_bind (first : Run ω α) (next : α → Run ω β) :
    (first >>= next).outcome = first.outcome >>= fun value => (next value).outcome := by
  change (first.andThen next).outcome = _
  unfold andThen
  cases first.outcome <;> rfl

/-- A run that ends well hands its value on. -/
theorem bind_of_ok {first : Run ω α} {value : α} (ended : first.outcome = .ok value)
    (next : α → Run ω β) :
    first >>= next = ⟨first.written ++ (next value).written, (next value).outcome⟩ := by
  change first.andThen next = _
  simp [andThen, ended]

/-- A run that ends with a fault runs nothing after it. -/
theorem bind_of_error {first : Run ω α} {fault : Fault} (ended : first.outcome = .error fault)
    (next : α → Run ω β) : first >>= next = ⟨first.written, .error fault⟩ := by
  change first.andThen next = _
  simp [andThen, ended]

/-- Identity law: mapping the identity changes nothing. -/
theorem id_map_run (run : Run ω α) : id <$> run = run := by
  obtain ⟨written, outcome⟩ := run
  cases outcome with
  | error fault => rfl
  | ok value =>
    change Run.mk (written ++ []) (.ok value) = _
    rw [List.append_nil]

/-- Associativity law: three runs in a row may be grouped either way. -/
theorem bind_assoc_run {γ : Type} (run : Run ω α) (f : α → Run ω β) (g : β → Run ω γ) :
    run >>= f >>= g = run >>= fun value => f value >>= g := by
  obtain ⟨written, outcome⟩ := run
  cases outcome with
  | error fault => rfl
  | ok value =>
    change andThen ⟨written ++ (f value).written, (f value).outcome⟩ g =
      ⟨written ++ (andThen (f value) g).written, (andThen (f value) g).outcome⟩
    cases ended : (f value).outcome <;> simp [andThen, ended]

instance : LawfulMonad (Run ω) :=
  LawfulMonad.mk' (Run ω) id_map_run (fun _ _ => rfl) bind_assoc_run

end Run

end Codebox
