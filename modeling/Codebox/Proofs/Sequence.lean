import Codebox.Run
import Mathlib.Data.List.Forall2

/-! # Computations in sequence

Several computations that may fail, one after the other, succeed exactly if each
does, and fail as the first one that fails.
-/

namespace Codebox

namespace Outcome

variable {ε α β : Type} {f : α → Except ε β} {items : List α} {results : List β} {fault : ε}

/-- After a value comes what is made of it. -/
theorem bind_ok (value : α) (next : α → Except ε β) : (.ok value >>= next) = next value := rfl

/-- After a failure comes nothing. -/
theorem bind_error (fault : ε) (next : α → Except ε β) :
    ((.error fault : Except ε α) >>= next) = .error fault := rfl

/-- Two steps end well exactly if both do. -/
theorem bind_eq_ok_iff {first : Except ε α} {next : α → Except ε β} {result : β} :
    (first >>= next) = .ok result ↔ ∃ value, first = .ok value ∧ next value = .ok result := by
  cases first with
  | error fault => simp [bind_error]
  | ok value => simp [bind_ok]

/-- A value with a property that can be tested. -/
theorem exists_ok_of_any {result : Except ε α} {test : α → Bool}
    (holds : result.toOption.any test) : ∃ value, result = .ok value ∧ test value := by
  cases result with
  | error fault => cases holds
  | ok value => exact ⟨value, rfl, holds⟩

/-- Two steps fail exactly if the first fails or, after it, the second. -/
theorem bind_eq_error_iff {first : Except ε α} {next : α → Except ε β} {fault : ε} :
    (first >>= next) = .error fault ↔
      first = .error fault ∨ ∃ value, first = .ok value ∧ next value = .error fault := by
  cases first with
  | error fault => simp [bind_error]
  | ok value => simp [bind_ok]

/-- A sequence succeeds exactly if each of its members does. -/
theorem mapM_eq_ok_iff : items.mapM f = .ok results ↔
    List.Forall₂ (fun item result => f item = .ok result) items results := by
  induction items generalizing results with
  | nil =>
      rw [List.mapM_nil, List.forall₂_nil_left_iff]
      exact ⟨fun same => (Except.ok.inj same).symm, fun same => congrArg Except.ok same.symm⟩
  | cons item rest ih =>
      rw [List.mapM_cons, bind_eq_ok_iff, List.forall₂_cons_left_iff]
      constructor
      · rintro ⟨value, found, others⟩
        obtain ⟨values, others, same⟩ := bind_eq_ok_iff.mp others
        exact ⟨value, values, found, ih.mp others, (Except.ok.inj same).symm⟩
      · rintro ⟨value, values, found, others, rfl⟩
        exact ⟨value, found, bind_eq_ok_iff.mpr ⟨values, ih.mpr others, rfl⟩⟩

/-- A sequence fails as the first of its members that fails. -/
theorem mapM_eq_error_iff : items.mapM f = .error fault ↔
    ∃ before item after, items = before ++ item :: after ∧
      (∀ other ∈ before, ∃ result, f other = .ok result) ∧ f item = .error fault := by
  induction items with
  | nil =>
      rw [List.mapM_nil]
      constructor
      · intro impossible
        cases impossible
      · rintro ⟨before, item, after, impossible, -⟩
        cases before <;> cases impossible
  | cons first rest ih =>
      rw [List.mapM_cons, bind_eq_error_iff]
      constructor
      · rintro (failed | ⟨value, found, failed⟩)
        · exact ⟨[], first, rest, rfl, fun _ member => (List.not_mem_nil member).elim, failed⟩
        · rcases bind_eq_error_iff.mp failed with failed | ⟨values, -, impossible⟩
          · obtain ⟨before, item, after, rfl, succeeded, failed⟩ := ih.mp failed
            exact ⟨first :: before, item, after, rfl,
              List.forall_mem_cons.mpr ⟨⟨value, found⟩, succeeded⟩, failed⟩
          · cases impossible
      · rintro ⟨before, item, after, same, succeeded, failed⟩
        cases before with
        | nil =>
            obtain ⟨rfl, rfl⟩ := List.cons.inj same
            exact .inl failed
        | cons other before =>
            obtain ⟨rfl, rfl⟩ := List.cons.inj same
            obtain ⟨⟨value, found⟩, succeeded⟩ := List.forall_mem_cons.mp succeeded
            exact .inr ⟨value, found, bind_eq_error_iff.mpr
              (.inl (ih.mpr ⟨before, item, after, rfl, succeeded, failed⟩))⟩

/-- What is related item by item has a partner for every item. -/
theorem exists_related {γ δ : Type} {related : γ → δ → Prop} {firsts : List γ} {seconds : List δ}
    (each : List.Forall₂ related firsts seconds) {first : γ} (member : first ∈ firsts) :
    ∃ second ∈ seconds, related first second := by
  induction each with
  | nil => cases member
  | cons here _ ih =>
      rcases List.mem_cons.mp member with rfl | member
      · exact ⟨_, List.mem_cons_self, here⟩
      · obtain ⟨second, among, found⟩ := ih member
        exact ⟨second, List.mem_cons_of_mem _ among, found⟩

/-- Lists of one result each, joined, are the results. -/
theorem forall₂_singleton_iff {related : α → β → Prop} :
    (∃ chunks, List.Forall₂ (fun item chunk => ∃ result, related item result ∧ chunk = [result])
        items chunks ∧ results = chunks.flatten) ↔ List.Forall₂ related items results := by
  induction items generalizing results with
  | nil => simp
  | cons item rest ih =>
      simp only [List.forall₂_cons_left_iff, ← ih]
      constructor
      · rintro ⟨_, ⟨_, chunks, ⟨result, here, rfl⟩, each, rfl⟩, rfl⟩
        exact ⟨result, chunks.flatten, here, ⟨chunks, each, rfl⟩, rfl⟩
      · rintro ⟨result, _, here, ⟨chunks, each, rfl⟩, rfl⟩
        exact ⟨[result] :: chunks, ⟨[result], chunks, ⟨result, here, rfl⟩, each, rfl⟩, rfl⟩

/-- Where all items are mapped, each is. -/
theorem exists_of_mapM (found : items.mapM f = .ok results) {item : α} (member : item ∈ items) :
    ∃ result ∈ results, f item = .ok result :=
  exists_related (mapM_eq_ok_iff.mp found) member

/-- Every result of a mapping comes from an item. -/
theorem exists_source_of_mapM (found : items.mapM f = .ok results) {result : β}
    (member : result ∈ results) : ∃ item ∈ items, f item = .ok result :=
  exists_related (mapM_eq_ok_iff.mp found).flip member

/-- All items can be mapped exactly if each can. -/
theorem exists_mapM_iff : (∃ results, items.mapM f = .ok results) ↔
    ∀ item ∈ items, ∃ result, f item = .ok result := by
  constructor
  · rintro ⟨results, found⟩ item member
    obtain ⟨result, -, found⟩ := exists_of_mapM found member
    exact ⟨result, found⟩
  · intro each
    cases ended : items.mapM f with
    | ok results => exact ⟨results, rfl⟩
    | error fault =>
        obtain ⟨before, item, after, rfl, -, failed⟩ := mapM_eq_error_iff.mp ended
        obtain ⟨result, found⟩ := each item (List.mem_append_right _ List.mem_cons_self)
        rw [found] at failed
        cases failed

/-- Checks of all items pass if each does. -/
theorem forM_eq_ok {f : α → Except ε Unit} (each : ∀ item ∈ items, f item = .ok ()) :
    items.forM f = .ok () := by
  induction items with
  | nil => rfl
  | cons item rest ih =>
      obtain ⟨first, each⟩ := List.forall_mem_cons.mp each
      change (f item >>= fun _ => rest.forM f) = .ok ()
      rw [first, bind_ok, ih each]

/-- What stops a sequence is what stops one of its members. -/
theorem exists_of_forM_eq_error {f : α → Except ε Unit} (failed : items.forM f = .error fault) :
    ∃ item ∈ items, f item = .error fault := by
  induction items with
  | nil => cases failed
  | cons item rest ih =>
      rcases bind_eq_error_iff.mp failed with failed | ⟨-, -, failed⟩
      · exact ⟨item, List.mem_cons_self, failed⟩
      · obtain ⟨other, member, failed⟩ := ih failed
        exact ⟨other, List.mem_cons_of_mem item member, failed⟩

/-- Whatever fault a computation ends with is an allowed one. -/
def FailsOnly (allowed : ε → Prop) (outcome : Except ε α) : Prop :=
  ∀ fault, outcome = .error fault → allowed fault

namespace FailsOnly

variable {allowed : ε → Prop}

/-- What ends well fails with nothing. -/
theorem of_ok {outcome : Except ε α} {value : α} (ended : outcome = .ok value) :
    FailsOnly allowed outcome := by
  intro fault failed
  rw [ended] at failed
  cases failed

/-- A value fails with nothing. -/
theorem ok (value : α) : FailsOnly allowed (.ok value) := of_ok rfl

/-- An allowed fault is allowed. -/
theorem error (known : allowed fault) : FailsOnly allowed (.error fault : Except ε α) := by
  intro other failed
  cases failed
  exact known

/-- Two steps fail as allowed if each does. -/
theorem bind {first : Except ε α} {next : α → Except ε β} (head : FailsOnly allowed first)
    (tail : ∀ value, first = .ok value → FailsOnly allowed (next value)) :
    FailsOnly allowed (first >>= next) := by
  intro fault failed
  rcases bind_eq_error_iff.mp failed with failed | ⟨value, ended, failed⟩
  · exact head fault failed
  · exact tail value ended fault failed

/-- A mapping fails as allowed if each item does. -/
theorem mapM (each : ∀ item ∈ items, FailsOnly allowed (f item)) :
    FailsOnly allowed (items.mapM f) := by
  intro fault failed
  obtain ⟨before, item, after, rfl, -, failed⟩ := mapM_eq_error_iff.mp failed
  exact each item (List.mem_append_right before List.mem_cons_self) fault failed

/-- Checks fail as allowed if each does. -/
theorem forM {f : α → Except ε Unit} (each : ∀ item ∈ items, FailsOnly allowed (f item)) :
    FailsOnly allowed (items.forM f) := by
  intro fault failed
  obtain ⟨item, member, failed⟩ := exists_of_forM_eq_error failed
  exact each item member fault failed

end FailsOnly

/-! ## Failing alike -/

/-- Two computations fail with the same fault, or neither fails. -/
def FailsAs (first : Except ε α) (second : Except ε β) : Prop :=
  ∀ fault, first = .error fault ↔ second = .error fault

namespace FailsAs

variable {γ δ : Type} {first : Except ε α} {second : Except ε β}

/-- An outcome fails as itself. -/
theorem refl (first : Except ε α) : FailsAs first first := fun _ => Iff.rfl

/-- Two values do not fail. -/
theorem ok (value : α) (result : β) : FailsAs (.ok value : Except ε α) (.ok result) := by
  intro fault
  simp

/-- It is enough that the second succeeds where the first does and fails where it
fails. -/
theorem of_cases (succeeds : ∀ value, first = .ok value → ∃ result, second = .ok result)
    (fails : ∀ fault, first = .error fault → second = .error fault) : FailsAs first second := by
  intro fault
  refine ⟨fails fault, fun failed => ?_⟩
  cases first with
  | ok value =>
      obtain ⟨result, ended⟩ := succeeds value rfl
      rw [failed] at ended
      cases ended
  | error other =>
      rw [fails other rfl] at failed
      cases failed
      rfl

/-- Where one outcome ends well, one that fails alike does. -/
theorem exists_ok (same : FailsAs first second) {value : α} (ended : first = .ok value) :
    ∃ result, second = .ok result := by
  cases second with
  | ok result => exact ⟨result, rfl⟩
  | error fault =>
      rw [(same fault).mpr rfl] at ended
      cases ended

/-- Two steps fail alike if their parts do. -/
theorem bind {next : α → Except ε γ} {other : β → Except ε δ} (head : FailsAs first second)
    (tail : ∀ value result, first = .ok value → second = .ok result →
      FailsAs (next value) (other result)) : FailsAs (first >>= next) (second >>= other) := by
  cases ended : first with
  | error fault =>
      rw [(head fault).mp ended]
      intro found
      rw [bind_error, bind_error, Except.error.injEq, Except.error.injEq]
  | ok value =>
      obtain ⟨result, found⟩ := head.exists_ok ended
      rw [found]
      exact tail value result ended found

/-- Members that are left out of a sequence do not matter unless one of them is the
first that fails. -/
theorem mapM_filter {keep : α → Bool}
    (harmless : ∀ before item after fault, items = before ++ item :: after →
      (∀ other ∈ before, ∃ result, f other = .ok result) → keep item = false →
        f item ≠ .error fault) :
    FailsAs (items.mapM f) ((items.filter keep).mapM f) := by
  apply of_cases
  · intro results ended
    apply exists_mapM_iff.mpr
    intro item member
    exact exists_mapM_iff.mp ⟨results, ended⟩ item (List.mem_filter.mp member).1
  · intro fault failed
    obtain ⟨before, item, after, split, succeeded, failed⟩ := mapM_eq_error_iff.mp failed
    have kept : keep item := by
      by_contra dropped
      exact harmless before item after fault split succeeded (by simpa using dropped) failed
    apply mapM_eq_error_iff.mpr
    refine ⟨before.filter keep, item, after.filter keep, ?_, ?_, failed⟩
    · rw [split, List.filter_append, List.filter_cons_of_pos kept]
    · intro other member
      exact succeeded other (List.mem_filter.mp member).1

end FailsAs

/-- A sequence is run up to one of its members, then at it, then after it. -/
theorem mapM_append_cons {before after : List α} {item : α} :
    (before ++ item :: after).mapM f = before.mapM f >>= fun ahead => f item >>= fun result =>
      after.mapM f >>= fun behind => .ok (ahead ++ result :: behind) := by
  rw [List.mapM_append, List.mapM_cons]
  simp only [bind_assoc, pure_bind]
  rfl

/-- Sequences one after the other are one sequence. -/
theorem mapM_flatMap {γ : Type} {below : γ → List α} {groups : List γ} :
    (groups.flatMap below).mapM f = groups.mapM (fun group => (below group).mapM f) >>=
      fun results => .ok results.flatten := by
  induction groups with
  | nil => rfl
  | cons group rest ih =>
      rw [List.flatMap_cons, List.mapM_append, List.mapM_cons, ih]
      simp only [bind_assoc]
      rfl

end Outcome

namespace Run

variable {ω α β : Type}

/-- How runs in sequence end is decided by how each ends. -/
theorem outcome_mapM (f : α → Run ω β) (items : List α) :
    (items.mapM f).outcome = items.mapM fun item => (f item).outcome := by
  induction items with
  | nil => rfl
  | cons item rest ih =>
      rw [List.mapM_cons, List.mapM_cons, outcome_bind]
      refine congrArg _ (funext fun value => ?_)
      rw [outcome_bind, ih]
      rfl

/-- The outcome of checks that write is that of the checks. -/
theorem outcome_forM (f : α → Run ω Unit) (items : List α) :
    (items.forM f).outcome = items.forM fun item => (f item).outcome := by
  induction items with
  | nil => rfl
  | cons item rest ih =>
      change (f item >>= fun _ => rest.forM f).outcome = _
      rw [outcome_bind, ih]
      rfl

/-! ## What runs in sequence write -/

/-- After a run that ends well, the next one decides, and its items follow. -/
theorem ok_bind_eq_iff {ahead written : List ω} {value : α} {next : α → Run ω β}
    {outcome : Except Fault β} : (⟨ahead, .ok value⟩ : Run ω α) >>= next = ⟨written, outcome⟩ ↔
      ∃ behind, next value = ⟨behind, outcome⟩ ∧ written = ahead ++ behind := by
  change (⟨ahead ++ (next value).written, (next value).outcome⟩ : Run ω β) = _ ↔ _
  constructor
  · intro ended
    obtain ⟨rfl, rfl⟩ := Run.mk.inj ended
    exact ⟨(next value).written, rfl, rfl⟩
  · rintro ⟨behind, ended, rfl⟩
    rw [ended]

variable {f : α → Run ω Unit} {items : List α} {written : List ω} {fault : Fault}

/-- Runs in sequence end well exactly if each does, and write what each writes. -/
theorem forM_eq_ok_iff : items.forM f = ⟨written, .ok ()⟩ ↔ ∃ chunks,
    List.Forall₂ (fun item chunk => f item = ⟨chunk, .ok ()⟩) items chunks ∧
      written = chunks.flatten := by
  induction items generalizing written with
  | nil =>
      change (⟨[], .ok ()⟩ : Run ω Unit) = _ ↔ _
      simp [eq_comm]
  | cons item rest ih =>
      change f item >>= (fun _ => rest.forM f) = _ ↔ _
      simp only [List.forall₂_cons_left_iff]
      cases ran : f item with
      | mk ahead outcome =>
          cases outcome with
          | error other =>
              rw [bind_of_error rfl]
              simp
          | ok value =>
              rw [ok_bind_eq_iff]
              simp only [ih]
              constructor
              · rintro ⟨_, ⟨chunks, each, rfl⟩, rfl⟩
                exact ⟨ahead :: chunks, ⟨ahead, chunks, rfl, each, rfl⟩, rfl⟩
              · rintro ⟨_, ⟨chunk, chunks, same, each, rfl⟩, rfl⟩
                cases same
                exact ⟨chunks.flatten, ⟨chunks, each, rfl⟩, rfl⟩

/-- Runs in sequence fail as the first one that fails. What was written before stays,
and so does what that one wrote. -/
theorem forM_eq_error_iff : items.forM f = ⟨written, .error fault⟩ ↔
    ∃ before item after chunks last, items = before ++ item :: after ∧
      List.Forall₂ (fun item chunk => f item = ⟨chunk, .ok ()⟩) before chunks ∧
      f item = ⟨last, .error fault⟩ ∧ written = chunks.flatten ++ last := by
  induction items generalizing written with
  | nil =>
      change (⟨[], .ok ()⟩ : Run ω Unit) = _ ↔ _
      simp
  | cons first rest ih =>
      change f first >>= (fun _ => rest.forM f) = _ ↔ _
      cases ran : f first with
      | mk ahead outcome =>
          cases outcome with
          | error other =>
              rw [bind_of_error rfl]
              constructor
              · intro failed
                cases failed
                exact ⟨[], first, rest, [], ahead, rfl, .nil, ran, rfl⟩
              · rintro ⟨before, item, after, chunks, last, split, each, failed, rfl⟩
                cases each with
                | nil =>
                    obtain ⟨rfl, rfl⟩ := List.cons.inj split
                    rw [ran] at failed
                    cases failed
                    rfl
                | cons here _ =>
                    obtain ⟨rfl, rfl⟩ := List.cons.inj split
                    rw [ran] at here
                    cases here
          | ok value =>
              rw [ok_bind_eq_iff]
              simp only [ih]
              constructor
              · rintro ⟨_, ⟨before, item, after, chunks, last, rfl, each, failed, rfl⟩, rfl⟩
                exact ⟨first :: before, item, after, ahead :: chunks, last, rfl, .cons ran each,
                  failed, (List.append_assoc ..).symm⟩
              · rintro ⟨before, item, after, chunks, last, split, each, failed, rfl⟩
                cases each with
                | nil =>
                    obtain ⟨rfl, rfl⟩ := List.cons.inj split
                    rw [ran] at failed
                    cases failed
                | @cons _ chunk before chunks here each =>
                    obtain ⟨rfl, rfl⟩ := List.cons.inj split
                    rw [ran] at here
                    cases here
                    exact ⟨_, ⟨before, item, after, chunks, last, rfl, each, failed, rfl⟩,
                      List.append_assoc ..⟩

/-- Writing an item ends well exactly if there is one to write, and writes just that. -/
theorem lift_bind_write_eq_ok_iff {outcome : Except Fault ω} :
    (lift outcome >>= write : Run ω Unit) = ⟨written, .ok ()⟩ ↔
      ∃ item, outcome = .ok item ∧ written = [item] := by
  cases outcome with
  | error other =>
      rw [bind_of_error rfl]
      simp
  | ok item =>
      rw [bind_of_ok rfl]
      simp [write, eq_comm]

/-- Writing an item fails exactly if there is none, and then writes nothing. -/
theorem lift_bind_write_eq_error_iff {outcome : Except Fault ω} :
    (lift outcome >>= write : Run ω Unit) = ⟨written, .error fault⟩ ↔
      outcome = .error fault ∧ written = [] := by
  cases outcome with
  | error other =>
      rw [bind_of_error rfl]
      simp [and_comm, eq_comm]
  | ok item =>
      rw [bind_of_ok rfl]
      simp [write]

end Run

end Codebox
