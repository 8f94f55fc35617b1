import ScxMlfq.Bpf.Insert

/-!
# Bpf — Destination

Where an enqueue may put a task: the CPU of the DSQ against the allowed
set, and against the CPUs a realtime task occupies. Each guard of
`mlfq_enqueue` tests a CPU of its own choice, so each result says which
inputs make that CPU another one than the CPU that receives the task.
-/

namespace ScxMlfq

/-! ## The picks of the redirect -/

/-- A redirect lands on an allowed CPU no realtime task occupies. -/
theorem mlfqPickUnoccupiedCpu_some {m : Machine} {p : TaskStruct} {origin cpu : Nat}
    (h : mlfqPickUnoccupiedCpu m p origin = some cpu) :
    p.cpus cpu = true ∧ m.occupied cpu = false := by
  rw [mlfqPickUnoccupiedCpu] at h
  split at h
  · rename_i c hllc
    obtain rfl := Option.some.inj h
    rw [unoccupiedInLlc] at hllc
    split at hllc
    · split at hllc
      · cases hllc
      · have hfound := List.find?_some hllc
        simp only [Bool.and_eq_true, Bool.not_eq_true'] at hfound
        exact ⟨hfound.1.2, hfound.2⟩
    · cases hllc
  · have hfound := List.find?_some h
    simp only [Bool.and_eq_true, Bool.not_eq_true'] at hfound
    exact hfound

/-! ## The allowed set -/

/-- The CPU that owns the DSQ is in `p->cpus_ptr`. The kernel resolves
`SCX_DSQ_LOCAL` and `SCX_DSQ_GLOBAL` itself. -/
def Dsq.Allowed (p : TaskStruct) : Dsq → Prop
  | .global => True
  | .loc => True
  | .localOn cpu => cpumaskTestCpu cpu p = true
  | .queue _ cpu => cpumaskTestCpu cpu p = true

/-- The placement has no allowed CPU: the enqueueing CPU stands in for a
target outside the allowed set, is outside it too, and no redirect moves
the task off. -/
structure Strays (m : Machine) (p : TaskStruct) (flags : EnqFlags) : Prop where
  exec : p.cpus m.cpu = false
  prev : flags.wakeup = true → cpumaskTestCpu p.cpu p = false
  stuck : flags.wakeup = true ∨ flags.reenq = true → m.occupied m.cpu = true →
    mlfqPickUnoccupiedCpu m p m.cpu = none

/-- The target before the redirect, by the CPU it starts from. -/
theorem enqueueTarget_cases (m : Machine) (p : TaskStruct) (flags : EnqFlags) :
    (cpumaskTestCpu (enqueueTarget m p flags) p = true ∧
      (p.cpus m.cpu = true ∨ flags.wakeup = true ∧ cpumaskTestCpu p.cpu p = true)) ∨
    (enqueueTarget m p flags = m.cpu ∧ p.cpus m.cpu = false ∧
      (flags.wakeup = true → cpumaskTestCpu p.cpu p = false)) := by
  rw [enqueueTarget]
  cases hw : flags.wakeup with
  | true =>
      cases hprev : cpumaskTestCpu p.cpu p with
      | true =>
          simp only [if_pos, hprev]
          exact .inl ⟨trivial, .inr ⟨trivial, trivial⟩⟩
      | false =>
          simp only [if_pos, hprev, Bool.false_eq_true, if_false]
          cases hexec : p.cpus m.cpu with
          | true => exact .inl ⟨by rw [cpumaskTestCpu_natCast, hexec], .inl rfl⟩
          | false => exact .inr ⟨trivial, rfl, fun _ => trivial⟩
  | false =>
      simp only [Bool.false_eq_true, if_false, ite_self]
      cases hexec : p.cpus m.cpu with
      | true => exact .inl ⟨by rw [cpumaskTestCpu_natCast, hexec], .inl rfl⟩
      | false => exact .inr ⟨trivial, rfl, nofun⟩

/-- The target of the regular placement is allowed unless the placement
has no allowed CPU. -/
theorem redirectedTarget_allowed_iff (m : Machine) (p : TaskStruct) (flags : EnqFlags) :
    cpumaskTestCpu (redirectedTarget m p flags).1 p = true ↔ ¬ Strays m p flags := by
  have hpick {cpu : Nat} (h : mlfqPickUnoccupiedCpu m p m.cpu = some cpu) :
      cpumaskTestCpu cpu p = true := by
    rw [cpumaskTestCpu_natCast]
    exact (mlfqPickUnoccupiedCpu_some h).1
  rcases enqueueTarget_cases m p flags with ⟨hok, hexec⟩ | ⟨htarget, hexec, hprev⟩
  · have hnot : ¬ Strays m p flags := by
      intro h
      rcases hexec with hexec | ⟨hw, hprev⟩
      · rw [h.exec] at hexec
        cases hexec
      · rw [h.prev hw] at hprev
        cases hprev
    refine iff_of_true ?_ hnot
    rw [redirectedTarget]
    split
    · split
      · exact hpick ‹_›
      · rw [cpumaskTestCpu_nonneg hok]
        exact hok
    · rw [cpumaskTestCpu_nonneg hok]
      exact hok
  · have hself : cpumaskTestCpu ((m.cpu : Int).toNat : Int) p = false := by
      rw [Int.toNat_natCast, cpumaskTestCpu_natCast, hexec]
    rw [redirectedTarget, redirects, htarget, cpuOccupied_natCast]
    split
    · rename_i hredirect
      simp only [Bool.and_eq_true, Bool.or_eq_true] at hredirect
      split
      · rename_i cpu hsome
        refine iff_of_true (hpick hsome) fun h => ?_
        rw [h.stuck hredirect.1 hredirect.2] at hsome
        cases hsome
      · rename_i hnone
        rw [hself]
        exact iff_of_false Bool.false_ne_true
          (not_not.mpr ⟨hexec, hprev, fun _ _ => hnone⟩)
    · rename_i hstay
      rw [hself]
      refine iff_of_false Bool.false_ne_true (not_not.mpr ⟨hexec, hprev, fun hkind hocc => ?_⟩)
      simp only [Bool.and_eq_true, Bool.or_eq_true] at hstay
      exact absurd ⟨hkind, hocc⟩ hstay

/-- The allowed set at one exit. -/
theorem Exits.allowed_iff {m : Machine} {p : TaskStruct} {t : TaskCtx} {flags : EnqFlags}
    {now : U64} {r : EnqueueResult} (h : Exits m p t flags now r) :
    (∀ i, r.insert = some i → i.dsq.Allowed p) ↔
      ¬ (mlfqTaskIsMigrationDisabled p = false ∧ localFastPath m t flags = false ∧
        Strays m p flags) := by
  have hpinned (hpin : mlfqTaskIsMigrationDisabled p = true) :
      ¬ (mlfqTaskIsMigrationDisabled p = false ∧ localFastPath m t flags = false ∧
        Strays m p flags) := by
    rintro ⟨hfree, -⟩
    rw [hpin] at hfree
    cases hfree
  cases h with
  | noCpu route pinned cpu insert =>
      exact iff_of_true (fun i hi => by rw [insert] at hi; cases hi) (hpinned pinned)
  | pinnedGlobal route pinned gauges tctx insert =>
      refine iff_of_true (fun i hi => ?_) (hpinned pinned)
      rw [insert] at hi
      cases hi
      trivial
  | pinnedIdle route pinned allowed inserts =>
      refine iff_of_true (fun i hi => ?_) (hpinned pinned)
      obtain rfl := Option.some.inj (inserts.insert.symm.trans hi)
      show cpumaskTestCpu _ p = true
      rw [cpumaskTestCpu_nonneg allowed]
      exact allowed
  | pinnedBusy route pinned allowed inserts =>
      refine iff_of_true (fun i hi => ?_) (hpinned pinned)
      obtain rfl := Option.some.inj (inserts.insert.symm.trans hi)
      show cpumaskTestCpu _ p = true
      rw [cpumaskTestCpu_nonneg allowed]
      exact allowed
  | fastPath route free idle inserts =>
      refine iff_of_true (fun i hi => ?_) ?_
      · obtain rfl := Option.some.inj (inserts.insert.symm.trans hi)
        trivial
      · rintro ⟨-, hslow, -⟩
        rw [idle] at hslow
        cases hslow
  | preempt route free slow wakeup stays allowed slice inserts =>
      refine iff_of_true (fun i hi => ?_) ?_
      · obtain rfl := Option.some.inj (inserts.insert.symm.trans hi)
        show cpumaskTestCpu _ p = true
        rw [cpumaskTestCpu_nonneg allowed]
        exact allowed
      · rintro ⟨-, -, hstrays⟩
        rw [hstrays.prev wakeup] at allowed
        cases allowed
  | regular route free slow inserts =>
      have htarget := redirectedTarget_allowed_iff m p flags
      constructor
      · intro hall hbad
        exact htarget.mp (hall _ inserts.insert) hbad.2.2
      · intro hnot i hi
        obtain rfl := Option.some.inj (inserts.insert.symm.trans hi)
        exact htarget.mpr fun hstrays => hnot ⟨free, slow, hstrays⟩

/-- The input on which an enqueue leaves the allowed set. -/
def LeavesMask (m : Machine) (p : TaskStruct) (tctx alloc : Option TaskCtx) (flags : EnqFlags)
    (now : U64) : Prop :=
  p.weight ≠ 0 ∧ mlfqTaskIsMigrationDisabled p = false ∧ Strays m p flags ∧
    ∃ t, enqueueCtx p tctx alloc now = some t ∧ localFastPath m t flags = false

/-- Only the fast path leaves the CPU to `SCX_DSQ_LOCAL`. -/
theorem Exits.loc {m : Machine} {p : TaskStruct} {t : TaskCtx} {flags : EnqFlags} {now : U64}
    {r : EnqueueResult} (h : Exits m p t flags now r) {i : DsqInsert} (hi : r.insert = some i)
    (hloc : i.dsq = .loc) : localFastPath m t flags = true := by
  have hnot {placed : TaskCtx} {cpu : Nat} {insert : DsqInsert}
      (hins : InsertsFor m placed flags now cpu insert r) (hne : insert.dsq ≠ .loc) :
      localFastPath m t flags = true := by
    obtain rfl := Option.some.inj (hins.insert.symm.trans hi)
    exact absurd hloc hne
  cases h with
  | noCpu route pinned cpu insert =>
      rw [insert] at hi
      cases hi
  | pinnedGlobal route pinned gauges tctx insert =>
      rw [insert] at hi
      cases hi
      cases hloc
  | pinnedIdle route pinned allowed inserts => exact hnot inserts nofun
  | pinnedBusy route pinned allowed inserts => exact hnot inserts nofun
  | fastPath route free idle inserts => exact idle
  | preempt route free slow wakeup stays allowed slice inserts => exact hnot inserts nofun
  | regular route free slow inserts => exact hnot inserts nofun

/-- **Affinity of the insert**: an enqueue puts the task into a DSQ of an
allowed CPU, or into one the kernel resolves, exactly when the fallback to
the enqueueing CPU is not taken outside the allowed set. The local DSQ is
left to the kernel for a task with a selected CPU only. -/
theorem mlfqEnqueue_allowed_iff (m : Machine) (p : TaskStruct) (tctx alloc : Option TaskCtx)
    (flags : EnqFlags) (now : U64) :
    ((∀ i, (mlfqEnqueue m p tctx alloc flags now).insert = some i → i.dsq.Allowed p) ↔
      ¬ LeavesMask m p tctx alloc flags now) ∧
    ∀ i, (mlfqEnqueue m p tctx alloc flags now).insert = some i → i.dsq = .loc →
      ∃ t, enqueueCtx p tctx alloc now = some t ∧ localFastPath m t flags = true := by
  rcases mlfqEnqueue_exits m p tctx alloc flags now with
    ⟨hinsert, -, hwhy⟩ | ⟨t, hctx, hweight, hexit⟩
  · have hnone (i : DsqInsert) :
        (mlfqEnqueue m p tctx alloc flags now).insert ≠ some i := by
      rw [hinsert]
      nofun
    refine ⟨iff_of_true (fun i hi => absurd hi (hnone i)) ?_, fun i hi => absurd hi (hnone i)⟩
    rintro ⟨hweight, -, -, t, ht, -⟩
    rcases hwhy with hctx | hzero
    · rw [hctx] at ht
      cases ht
    · exact hweight hzero
  · constructor
    · rw [hexit.allowed_iff, localFastPath_settled]
      constructor
      · rintro hnot ⟨-, hfree, hstrays, t', ht', hslow⟩
        rw [hctx] at ht'
        obtain rfl := Option.some.inj ht'
        exact hnot ⟨hfree, hslow, hstrays⟩
      · rintro hnot ⟨hfree, hslow, hstrays⟩
        exact hnot ⟨hweight, hfree, hstrays, t, hctx, hslow⟩
    · intro i hi hloc
      have hfast := hexit.loc hi hloc
      rw [localFastPath_settled] at hfast
      exact ⟨t, hctx, hfast⟩

/-- A class switch enqueued by CPU 0 for a task of the CPUs 1 and 2. -/
def strayTask : TaskStruct :=
  { pid := 1, cpu := 1, nrCpusAllowed := 2, cpus := fun c => decide (c = 1 ∨ c = 2) }

theorem strayTask_dsq :
    (mlfqEnqueue (twoLlcs 0) strayTask (some {}) none { other := true } 1).insert.map
      DsqInsert.dsq = some (.queue .q2 0) := by
  decide

/-- **The failing input.** The task is put into a queue DSQ of CPU 0. -/
theorem mlfqEnqueue_strays :
    ¬ ∀ (m : Machine) (p : TaskStruct) (tctx alloc : Option TaskCtx) (flags : EnqFlags)
      (now : U64) (i : DsqInsert), (∃ cpu, p.cpus cpu = true) →
      (mlfqEnqueue m p tctx alloc flags now).insert = some i → i.dsq.Allowed p := by
  intro h
  obtain ⟨i, hi, hdsq⟩ := Option.map_eq_some_iff.mp strayTask_dsq
  have hallowed := h _ _ _ _ _ _ i ⟨1, by decide⟩ hi
  rw [hdsq] at hallowed
  exact Bool.false_ne_true hallowed

/-! ## The occupied CPUs -/

/-- The CPU whose local DSQ an insert fills; `SCX_DSQ_LOCAL` is the one of
the task's CPU. -/
def Dsq.localCpu (taskCpu : Int) : Dsq → Option Int
  | .loc => some taskCpu
  | .localOn cpu => some cpu
  | .global => none
  | .queue _ _ => none

/-- A preemption stays off an occupied CPU: the redirect has tested the
CPU it goes to. -/
theorem not_occupied_of_not_redirects {m : Machine} {p : TaskStruct} {flags : EnqFlags}
    (hwakeup : flags.wakeup = true) (hstays : redirects m p flags = false)
    (hallowed : cpumaskTestCpu p.cpu p = true) : m.cpuOccupied p.cpu = false := by
  have htarget : enqueueTarget m p flags = p.cpu := by
    simp only [enqueueTarget, hwakeup, hallowed, if_pos]
  rwa [redirects, hwakeup, Bool.true_or, Bool.true_and, htarget] at hstays

/-- The input on which the fast path strands the task behind a realtime
task. -/
def StrandsBehindRealtime (m : Machine) (p : TaskStruct) (tctx alloc : Option TaskCtx)
    (flags : EnqFlags) (now : U64) : Prop :=
  p.weight ≠ 0 ∧ mlfqTaskIsMigrationDisabled p = false ∧ m.cpuOccupied p.cpu = true ∧
    ∃ t, enqueueCtx p tctx alloc now = some t ∧ localFastPath m t flags = true

/-- The occupancy at one exit of a task that is not pinned. -/
theorem Exits.unoccupied_iff {m : Machine} {p : TaskStruct} {t : TaskCtx} {flags : EnqFlags}
    {now : U64} {r : EnqueueResult} (h : Exits m p t flags now r)
    (hfree : mlfqTaskIsMigrationDisabled p = false) :
    (∀ i cpu, r.insert = some i → i.dsq.localCpu p.cpu = some cpu → m.cpuOccupied cpu = false) ↔
      ¬ (m.cpuOccupied p.cpu = true ∧ localFastPath m t flags = true) := by
  have hslow (hno : localFastPath m t flags = false) :
      ¬ (m.cpuOccupied p.cpu = true ∧ localFastPath m t flags = true) := by
    rintro ⟨-, hfast⟩
    rw [hno] at hfast
    cases hfast
  have hpinned {P : Prop} (hpin : mlfqTaskIsMigrationDisabled p = true) : P := by
    rw [hfree] at hpin
    cases hpin
  cases h with
  | noCpu route pinned cpu insert => exact hpinned pinned
  | pinnedGlobal route pinned gauges tctx insert => exact hpinned pinned
  | pinnedIdle route pinned allowed inserts => exact hpinned pinned
  | pinnedBusy route pinned allowed inserts => exact hpinned pinned
  | fastPath route free idle inserts =>
      constructor
      · rintro hall ⟨hocc, -⟩
        rw [hall _ p.cpu inserts.insert rfl] at hocc
        cases hocc
      · intro hnot i cpu hi hcpu
        obtain rfl := Option.some.inj (inserts.insert.symm.trans hi)
        cases hcpu
        rw [← Bool.not_eq_true]
        exact fun hocc => hnot ⟨hocc, idle⟩
  | preempt route free slow wakeup stays allowed slice inserts =>
      refine iff_of_true (fun i cpu hi hcpu => ?_) (hslow slow)
      obtain rfl := Option.some.inj (inserts.insert.symm.trans hi)
      cases hcpu
      rw [cpumaskTestCpu_nonneg allowed]
      exact not_occupied_of_not_redirects wakeup stays allowed
  | regular route free slow inserts =>
      refine iff_of_true (fun i cpu hi hcpu => ?_) (hslow slow)
      obtain rfl := Option.some.inj (inserts.insert.symm.trans hi)
      cases hcpu

/-- **No local insert on an occupied CPU**: a task that is not pinned is
kept out of the local DSQ of a CPU a realtime task occupies exactly when
the fast path is not taken for such a CPU. The guard of the fast path
tests the executing CPU. -/
theorem mlfqEnqueue_unoccupied_iff (m : Machine) (p : TaskStruct)
    (tctx alloc : Option TaskCtx) (flags : EnqFlags) (now : U64) :
    (mlfqTaskIsMigrationDisabled p = false →
      ∀ i cpu, (mlfqEnqueue m p tctx alloc flags now).insert = some i →
        i.dsq.localCpu p.cpu = some cpu → m.cpuOccupied cpu = false) ↔
      ¬ StrandsBehindRealtime m p tctx alloc flags now := by
  cases hfree : mlfqTaskIsMigrationDisabled p with
  | true =>
      refine iff_of_true nofun ?_
      rintro ⟨-, hno, -⟩
      rw [hfree] at hno
      cases hno
  | false =>
      rw [imp_iff_right rfl]
      rcases mlfqEnqueue_exits m p tctx alloc flags now with
        ⟨hinsert, -, hwhy⟩ | ⟨t, hctx, hweight, hexit⟩
      · refine iff_of_true (fun i cpu hi => ?_) ?_
        · rw [hinsert] at hi
          cases hi
        · rintro ⟨hweight, -, -, t, ht, -⟩
          rcases hwhy with hctx | hzero
          · rw [hctx] at ht
            cases ht
          · exact hweight hzero
      · rw [hexit.unoccupied_iff hfree, localFastPath_settled]
        constructor
        · rintro hnot ⟨-, -, hocc, t', ht', hfast⟩
          rw [hctx] at ht'
          obtain rfl := Option.some.inj ht'
          exact hnot ⟨hocc, hfast⟩
        · rintro hnot ⟨hocc, hfast⟩
          exact hnot ⟨hweight, hfree, hocc, t, hctx, hfast⟩

/-- The wakeup `remoteWake`, with a realtime task on CPU 1. -/
def occupiedWake : Machine :=
  { twoLlcs 0 with occupied := fun c => decide (c = 1) }

theorem occupiedWake_dsq :
    (mlfqEnqueue occupiedWake { pid := 1, cpu := 1, nrCpusAllowed := 2 }
      (some { wakeCpuState := { idle := true, valid := true } }) none
      { wakeup := true, cpuSelected := true } 1).insert.map DsqInsert.dsq = some .loc := by
  decide

/-- **The failing input.** The task is put into the local DSQ of CPU 1. -/
theorem mlfqEnqueue_occupied :
    ¬ ∀ (m : Machine) (p : TaskStruct) (tctx alloc : Option TaskCtx) (flags : EnqFlags)
      (now : U64), mlfqTaskIsMigrationDisabled p = false →
      ∀ i cpu, (mlfqEnqueue m p tctx alloc flags now).insert = some i →
        i.dsq.localCpu p.cpu = some cpu → m.cpuOccupied cpu = false := by
  intro h
  obtain ⟨i, hi, hdsq⟩ := Option.map_eq_some_iff.mp occupiedWake_dsq
  have hfree := h _ _ _ _ _ _ (by decide) i 1 hi (by rw [hdsq]; rfl)
  exact absurd hfree (by decide)

end ScxMlfq
