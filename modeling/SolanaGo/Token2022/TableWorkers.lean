/-
The workers that fill the table of baby steps, in any interleaving.

`buildDiscreteLogTable` starts one goroutine for each part of the entries and waits for all
of them. Here a turn of a worker's loop is one step, and a schedule says whose turn is next.
The loop that starts the workers reads nothing that they write, so a worker that is started
late is one whose turns come late, and all are there from the beginning.

A worker writes to an entry what only the index of the entry decides. So whatever the
schedule, the entries behind each worker are right (`Filled`), and when all are done the
table is that of the sequential model (`entries_of_waited`). No schedule has more turns than
there are entries, and each schedule that is not done can go on (`waited_or_turn`).
-/
import SolanaGo.Lib.Transition
import SolanaGo.Token2022.DiscreteLog

set_option autoImplicit false

namespace SolanaGo.Token2022

open Codec GiantSteps Transition

/-! ## The workers -/

/-- A goroutine in the loop of `build`: its part, the value it is at, and its point. -/
structure Worker (P : Type) where
  start : ℕ
  stop : ℕ
  value : ℕ
  point : P

/-- `type discreteLogBuilder struct`, with the goroutines that were started. -/
structure DiscreteLogBuilder (P : Type) where
  entries : List DiscreteLogEntry
  workers : List (Worker P)

/-- `builder.wait.Wait()` returns: no worker has a turn left. -/
def DiscreteLogBuilder.Waited {P : Type} (builder : DiscreteLogBuilder P) : Prop :=
  ∀ w ∈ builder.workers, w.stop ≤ w.value

/-- The map the entries are put into. -/
def DiscreteLogBuilder.table {P : Type} (builder : DiscreteLogBuilder P) : ByteArr 32 → Option ℕ :=
  builder.entries.foldl insertEntry fun _ => none

namespace Ristretto

variable {ℓ : ℕ} {P : Type} [AddCommGroup P] [Module (ZMod ℓ) P] (curve : Ristretto ℓ P)

/-- The loop that starts the workers. -/
def startWorkers (size chunk : ℕ) : (turns start : ℕ) → List (Worker P)
  | 0, _ => []
  | turns + 1, start =>
    if start < size then
      ⟨start, min (start + chunk) size, start, (start : ZMod ℓ) • curve.base⟩
        :: startWorkers size chunk turns (start + chunk)
    else []

/-- The builder with its workers started, with `procs` for `runtime.GOMAXPROCS(0)`. -/
def started (size procs : ℕ) : DiscreteLogBuilder P :=
  let workers := min procs size
  let chunk := (size + workers - 1) / workers
  { entries := List.replicate size ⟨ByteArr.zero 32, 0⟩
    workers := curve.startWorkers size chunk size 0 }

/-- One turn of the loop of the worker with the given number. -/
def turn (builder : DiscreteLogBuilder P) (k : ℕ) : Option (DiscreteLogBuilder P) :=
  match builder.workers[k]? with
  | none => none
  | some w =>
    if w.value < w.stop then
      some
        { entries := builder.entries.set w.value
            ⟨curve.compressedRistrettoKey w.point, w.value % 2 ^ 16⟩
          workers := builder.workers.set k
            { w with value := w.value + 1, point := w.point + curve.base } }
    else none

section Turns

variable {curve}

omit [Module (ZMod ℓ) P] in
/-- What a turn is. -/
theorem turn_eq_some {b b' : DiscreteLogBuilder P} {k : ℕ} :
    curve.turn b k = some b' ↔ ∃ w, b.workers[k]? = some w ∧ w.value < w.stop
      ∧ b' = { entries := b.entries.set w.value
                 ⟨curve.compressedRistrettoKey w.point, w.value % 2 ^ 16⟩
               workers := b.workers.set k
                 { w with value := w.value + 1, point := w.point + curve.base } } := by
  unfold turn
  cases b.workers[k]? with
  | none => simp
  | some w =>
    by_cases hlt : w.value < w.stop
    · simp [hlt, eq_comm]
    · simp [hlt]

/-! ## Every schedule comes to an end -/

/-- The turns that are left. -/
def turnsLeft (b : DiscreteLogBuilder P) : ℕ := (b.workers.map fun w => w.stop - w.value).sum

omit [Module (ZMod ℓ) P] in
theorem turnsLeft_turn {b b' : DiscreteLogBuilder P} {k : ℕ} (h : curve.turn b k = some b') :
    turnsLeft b' < turnsLeft b := by
  obtain ⟨w, hw, hlt, rfl⟩ := turn_eq_some.mp h
  obtain ⟨hk, rfl⟩ := List.getElem?_eq_some_iff.mp hw
  have hself : b.workers = b.workers.set k b.workers[k] := (List.set_getElem_self hk).symm
  have hturns : turnsLeft b = turnsLeft ⟨b.entries, b.workers.set k b.workers[k]⟩ := by
    rw [← hself]
  rw [hturns]
  unfold turnsLeft
  simp only [List.set_eq_take_append_cons_drop, if_pos hk, List.map_append, List.map_cons,
    List.sum_append, List.sum_cons]
  omega

omit [Module (ZMod ℓ) P] in
/-- A worker that is not done can go on. -/
theorem waited_or_turn (b : DiscreteLogBuilder P) :
    b.Waited ∨ ∃ k b', curve.turn b k = some b' := by
  by_cases hwaited : b.Waited
  · exact Or.inl hwaited
  · unfold DiscreteLogBuilder.Waited at hwaited
    push Not at hwaited
    obtain ⟨w, hmem, hlt⟩ := hwaited
    obtain ⟨k, hk⟩ := List.mem_iff_getElem?.mp hmem
    exact Or.inr ⟨k, _, turn_eq_some.mpr ⟨w, hk, hlt, rfl⟩⟩

/-! ## The parts of the workers -/

/-- A worker at the start of its part. -/
theorem startWorkers_at_start {size chunk turns start : ℕ} {w : Worker P}
    (h : w ∈ curve.startWorkers size chunk turns start) :
    w.value = w.start ∧ start ≤ w.start ∧ w.start < size ∧ w.stop = min (w.start + chunk) size
      ∧ w.point = w.start • curve.base := by
  induction turns generalizing start with
  | zero => simp [startWorkers] at h
  | succ turns ih =>
    unfold startWorkers at h
    by_cases hstart : start < size
    · rw [if_pos hstart, List.mem_cons] at h
      rcases h with rfl | h
      · exact ⟨rfl, Nat.le_refl _, hstart, rfl, Nat.cast_smul_eq_nsmul (ZMod ℓ) _ _⟩
      · obtain ⟨hvalue, hle, hrest⟩ := ih h
        exact ⟨hvalue, (Nat.le_add_right _ _).trans hle, hrest⟩
    · rw [if_neg hstart] at h
      cases h

/-- Every index from the first start on is in the part of a worker. -/
theorem exists_worker {size chunk : ℕ} (hchunk : 0 < chunk) {turns start i : ℕ}
    (hturns : size ≤ start + turns) (hi : start ≤ i) (hsize : i < size) :
    ∃ w ∈ curve.startWorkers size chunk turns start, w.start ≤ i ∧ i < w.stop := by
  induction turns generalizing start with
  | zero => omega
  | succ turns ih =>
    unfold startWorkers
    rw [if_pos (by omega)]
    by_cases hfirst : i < start + chunk
    · refine ⟨_, List.mem_cons_self, hi, ?_⟩
      show i < min (start + chunk) size
      omega
    · obtain ⟨w, hmem, hw⟩ := ih (by omega : size ≤ start + chunk + turns) (by omega)
      exact ⟨w, List.mem_cons_of_mem _ hmem, hw⟩

/-- The parts follow each other, so no two workers write to the same entry. -/
theorem startWorkers_pairwise (size chunk turns start : ℕ) :
    (curve.startWorkers size chunk turns start).Pairwise fun w w' => w.stop ≤ w'.start := by
  induction turns generalizing start with
  | zero => exact List.Pairwise.nil
  | succ turns ih =>
    unfold startWorkers
    by_cases hstart : start < size
    · rw [if_pos hstart]
      refine List.Pairwise.cons (fun w' hw' => ?_) (ih _)
      have hle := (startWorkers_at_start hw').2.1
      show min (start + chunk) size ≤ w'.start
      omega
    · rw [if_neg hstart]
      exact List.Pairwise.nil

/-! ## The entries under any schedule -/

variable (curve) in
/-- What a schedule keeps: the parts of the workers, and behind each worker the entries it has
to write. -/
structure Filled (size : ℕ) (parts : List (ℕ × ℕ)) (b : DiscreteLogBuilder P) : Prop where
  length : b.entries.length = size
  parts : b.workers.map (fun w => (w.start, w.stop)) = parts
  stop_le : ∀ w ∈ b.workers, w.stop ≤ size
  point : ∀ w ∈ b.workers, w.point = w.value • curve.base
  behind : ∀ w ∈ b.workers, ∀ i, w.start ≤ i → i < w.value → b.entries[i]? = some (curve.entry i)

omit [Module (ZMod ℓ) P] in
/-- **One turn.** The worker writes the entry of its value, over whatever is there. -/
theorem Filled.turn {size : ℕ} {parts : List (ℕ × ℕ)} {b b' : DiscreteLogBuilder P} {k : ℕ}
    (h : curve.Filled size parts b) (hturn : curve.turn b k = some b') :
    curve.Filled size parts b' := by
  obtain ⟨w, hw, hlt, rfl⟩ := turn_eq_some.mp hturn
  have hmem : w ∈ b.workers := List.mem_of_getElem? hw
  have hstop := h.stop_le w hmem
  have hentry : (⟨curve.compressedRistrettoKey w.point, w.value % 2 ^ 16⟩ : DiscreteLogEntry)
      = curve.entry w.value := by
    unfold entry
    rw [h.point w hmem]
  have hbehind : ∀ i, (i = w.value ∨ b.entries[i]? = some (curve.entry i)) →
      (b.entries.set w.value (curve.entry w.value))[i]? = some (curve.entry i) := by
    intro i hi
    rw [List.getElem?_set]
    by_cases heq : w.value = i
    · subst heq
      rw [if_pos rfl, if_pos (by rw [h.length]; omega)]
    · rw [if_neg heq]
      exact hi.resolve_left fun hi => heq hi.symm
  rw [hentry]
  refine ⟨?_, ?_, fun w' hw' => ?_, fun w' hw' => ?_, fun w' hw' i hstart hvalue => ?_⟩
  · rw [List.length_set, h.length]
  · rw [← h.parts, List.map_set]
    refine List.ext_getElem? fun i => ?_
    rw [List.getElem?_set, List.length_map]
    by_cases hi : k = i
    · subst hi
      have hk := (List.getElem?_eq_some_iff.mp hw).1
      rw [if_pos rfl, if_pos hk, List.getElem?_map, hw]
      rfl
    · rw [if_neg hi]
  · rcases List.mem_or_eq_of_mem_set hw' with hold | rfl
    · exact h.stop_le w' hold
    · exact hstop
  · rcases List.mem_or_eq_of_mem_set hw' with hold | rfl
    · exact h.point w' hold
    · show w.point + curve.base = (w.value + 1) • curve.base
      rw [h.point w hmem, succ_nsmul]
  · refine hbehind i ?_
    rcases List.mem_or_eq_of_mem_set hw' with hold | rfl
    · exact Or.inr (h.behind w' hold i hstart hvalue)
    · rcases Nat.lt_succ_iff_lt_or_eq.mp hvalue with hlt' | heq
      · exact Or.inr (h.behind w hmem i hstart hlt')
      · exact Or.inl heq

/-- The builder as it starts. -/
theorem filled_started (size procs : ℕ) :
    curve.Filled size ((curve.started size procs).workers.map fun w => (w.start, w.stop))
      (curve.started size procs) := by
  refine ⟨List.length_replicate, rfl, fun w hw => ?_, fun w hw => ?_,
    fun w hw i hstart hvalue => ?_⟩
  · rw [(startWorkers_at_start hw).2.2.2.1]
    exact Nat.min_le_right _ _
  · rw [(startWorkers_at_start hw).2.2.2.2, (startWorkers_at_start hw).1]
  · rw [(startWorkers_at_start hw).1] at hvalue
    omega

/-- **The entries do not depend on the schedule.** -/
theorem entries_of_waited {size procs : ℕ} (hsize : 0 < size) (hprocs : 0 < procs)
    {schedule : List ℕ} {b : DiscreteLogBuilder P}
    (hrun : run curve.turn (curve.started size procs) schedule = some b) (hwaited : b.Waited) :
    b.entries = curve.buildEntries size procs := by
  have hfilled : curve.Filled size _ b :=
    run_preserves (fun h hturn => h.turn hturn) (filled_started size procs) hrun
  have hchunk : 0 < (size + min procs size - 1) / min procs size :=
    Nat.div_pos (by omega) (by omega)
  rw [buildEntries_eq hsize hprocs]
  refine List.ext_getElem? fun i => ?_
  by_cases hi : i < size
  · -- The index is in a part, and the worker of the part is behind its end.
    obtain ⟨w0, hw0, hstart, hstop⟩ :
        ∃ w ∈ (curve.started size procs).workers, w.start ≤ i ∧ i < w.stop :=
      exists_worker hchunk (Nat.le_of_eq (Nat.zero_add size).symm) (Nat.zero_le i) hi
    have hpart : (w0.start, w0.stop) ∈ b.workers.map fun w => (w.start, w.stop) := by
      rw [hfilled.parts]
      exact List.mem_map_of_mem hw0
    obtain ⟨w, hw, heq⟩ := List.mem_map.mp hpart
    obtain ⟨hs, he⟩ := Prod.mk.inj heq
    have hdone := hwaited w hw
    rw [hfilled.behind w hw i (by omega) (by omega), List.getElem?_map, List.getElem?_range hi]
    rfl
  · have hlen := hfilled.length
    rw [List.getElem?_eq_none (by omega), List.getElem?_eq_none]
    rw [List.length_map, List.length_range]
    omega

/-- At the start there is one turn for each entry. -/
theorem turnsLeft_startWorkers (size chunk turns start : ℕ) (entries : List DiscreteLogEntry) :
    turnsLeft ⟨entries, curve.startWorkers size chunk turns start⟩ ≤ size - start := by
  unfold turnsLeft
  induction turns generalizing start with
  | zero => exact Nat.zero_le _
  | succ turns ih =>
    unfold startWorkers
    by_cases hstart : start < size
    · have hrest := ih (start + chunk)
      rw [if_pos hstart, List.map_cons, List.sum_cons]
      dsimp only at hrest ⊢
      omega
    · rw [if_neg hstart]
      exact Nat.zero_le _

end Turns

end Ristretto

/-! ## The table and the search -/

namespace ConfidentialTransferService

variable {ℓ : ℕ} {P : Type} [AddCommGroup P] [Module (ZMod ℓ) P]
  (service : ConfidentialTransferService ℓ P)

/-- **The discrete logarithm.** For every number of workers: no two of them write to the same
entry, and they come to their end after at most one turn for each entry. Whatever the schedule
was, the table then maps exactly the points `v • G` with `v < 65536`, to `v`. With it the
search returns `a` for the point `a • G` of every 32-bit `a`, and an error for every other
point. -/
theorem buildDiscreteLogTable_decodes [Fact ℓ.Prime] (hlaw : service.curve.Lawful) {procs : ℕ}
    (hprocs : 0 < procs) :
    ((service.curve.started tableSize procs).workers.Pairwise fun w w' => w.stop ≤ w'.start)
    ∧ (∃ schedule b,
      run service.curve.turn (service.curve.started tableSize procs) schedule = some b ∧ b.Waited)
    ∧ ∀ schedule b,
      run service.curve.turn (service.curve.started tableSize procs) schedule = some b →
      schedule.length ≤ tableSize
      ∧ (b.Waited →
        (∀ key v, b.table key = some v
          ↔ v < 65536 ∧ key = service.curve.compressedRistrettoKey (v • service.curve.base))
        ∧ (∀ a < 2 ^ 32, service.decodePedersenCommitmentU32
            (service.pedersenCommitment (a • service.curve.base)) b.table = .ok a)
        ∧ ∀ point, (∀ a < 2 ^ 32, point ≠ a • service.curve.base) →
          service.decodePedersenCommitmentU32 (service.pedersenCommitment point) b.table
            = .error outsideRange) := by
  refine ⟨Ristretto.startWorkers_pairwise _ _ _ _,
    exists_run_to Ristretto.turnsLeft_turn Ristretto.waited_or_turn _, fun schedule b hrun => ?_⟩
  refine ⟨?_, fun hwaited => ?_⟩
  · have hlength := length_le_of_run Ristretto.turnsLeft_turn hrun
    have hturns : Ristretto.turnsLeft (service.curve.started tableSize procs) ≤ tableSize :=
      Ristretto.turnsLeft_startWorkers tableSize _ _ 0 _
    omega
  · have hentries := Ristretto.entries_of_waited (by decide) hprocs hrun hwaited
    have htable : b.table = service.curve.buildDiscreteLogTable procs := by
      unfold DiscreteLogBuilder.table Ristretto.buildDiscreteLogTable
      rw [hentries]
    have hsteps := Ristretto.buildDiscreteLogTable_isTable hlaw hprocs
    rw [htable]
    refine ⟨fun key v => ?_, fun a => decodePedersenCommitmentU32_of_isTable hlaw hsteps,
      fun point => decodePedersenCommitmentU32_outside hlaw hsteps⟩
    unfold Ristretto.buildDiscreteLogTable
    rw [Ristretto.buildEntries_eq (by decide) hprocs,
      Ristretto.foldl_insertEntry hlaw (by decide)]
    rfl

/-- Three workers, in the sample group: the point of seventy thousand is found. -/
theorem buildDiscreteLogTable_decodes_sample :
    ∃ schedule b, run sampleProver.curve.turn (sampleProver.curve.started tableSize 3) schedule
        = some b
      ∧ b.Waited ∧ sampleProver.decodePedersenCommitmentU32
        (sampleProver.pedersenCommitment (70000 • sampleProver.curve.base)) b.table
          = .ok 70000 := by
  obtain ⟨-, ⟨schedule, b, hrun, hwaited⟩, hall⟩ :=
    sampleProver.buildDiscreteLogTable_decodes sampleCurve_lawful (by decide : 0 < 3)
  obtain ⟨-, hfound, -⟩ := (hall schedule b hrun).2 hwaited
  exact ⟨schedule, b, hrun, hwaited, hfound 70000 (by decide)⟩

end ConfidentialTransferService

end SolanaGo.Token2022
