import ScxMlfq.Run.Queues
import ScxMlfq.Bpf.Destination

/-!
# Run — Created

The queue DSQs against `mlfq_init`. An attach that succeeds has created
one for every queue of every CPU, each under an id of its own below the
flags of the kernel, and no callback ever puts a task into another.
-/

namespace ScxMlfq

open Trace Places

/-! ## What an attach creates -/

theorem mem_initDsqs {n : Nat} {q : Queue} {c : Nat} : (q, c) ∈ initDsqs n ↔ c < n := by
  rw [initDsqs, List.mem_flatMap]
  constructor
  · intro h
    obtain ⟨cpu, hcpu, hmem⟩ := h
    have hc : c = cpu := by
      simp only [List.mem_cons, Prod.mk.injEq, List.not_mem_nil, or_false] at hmem
      omega
    rw [hc]
    exact List.mem_range.mp hcpu
  · intro h
    refine ⟨c, List.mem_range.mpr h, ?_⟩
    cases q <;> simp

/-- **A successful attach has every DSQ**: each was created, or was there. -/
theorem mlfqInit_dsqs {m m' : Machine} {createDsq : U64 → Int} (h : mlfqInit m createDsq = .ok m')
    {q : Queue} {c : Nat} (hc : c < m.nrCpuIds) :
    0 ≤ createDsq (mlfqDsqId q c) ∨ createDsq (mlfqDsqId q c) = eExist := by
  simp only [mlfqInit] at h
  split at h
  · cases h
  · split at h
    · cases h
    · split at h
      · cases h
      · rename_i hnone
        have hall := List.find?_eq_none.mp hnone (q, c) (mem_initDsqs.mpr hc)
        simp only [Bool.and_eq_true, decide_eq_true_eq] at hall
        omega

/-- The id of a queue DSQ of one of the CPUs, as a number. -/
theorem mlfqDsqId_toNat {q : Queue} {c : Nat} (hc : c < mlfqMaxCpus) :
    (mlfqDsqId q c).toNat = 0x1000 + c * 3 + (q.num - 1) := by
  have hmax : mlfqMaxCpus = 1024 := rfl
  have hpos := q.num_pos
  have hle := q.num_le
  have hqueues : mlfqNrQueues = 3 := rfl
  have hint : (0x1000 + (c : Int) * 3 + (q.num - 1) : Int)
      = ((0x1000 + c * 3 + (q.num - 1) : Nat) : Int) := by omega
  rw [mlfqDsqId_eq_ofInt, hint, BitVec.ofInt_natCast, BitVec.toNat_ofNat]
  exact Nat.mod_eq_of_lt (by omega)

/-- The ids stay below the flags of the kernel, not only the last one. -/
theorem mlfqDsqId_lt {q : Queue} {c : Nat} (hc : c < mlfqMaxCpus) :
    mlfqDsqId q c < scxDsqLocalOn := by
  have hmax : mlfqMaxCpus = 1024 := rfl
  have hle := q.num_le
  have hqueues : mlfqNrQueues = 3 := rfl
  have hlocal : scxDsqLocalOn.toNat = 0xC000000000000000 := rfl
  rw [BitVec.lt_def, mlfqDsqId_toNat hc, hlocal]
  omega

theorem mlfqDsqId_injective {q q' : Queue} {c c' : Nat} (hc : c < mlfqMaxCpus)
    (hc' : c' < mlfqMaxCpus) (h : mlfqDsqId q c = mlfqDsqId q' c') : (q, c) = (q', c') := by
  have hnat := congrArg BitVec.toNat h
  rw [mlfqDsqId_toNat hc, mlfqDsqId_toNat hc'] at hnat
  have hpos := q.num_pos
  have hpos' := q'.num_pos
  have hle := q.num_le
  have hle' := q'.num_le
  have hqueues : mlfqNrQueues = 3 := rfl
  have hnum : q.num = q'.num := by omega
  rw [Queue.num_injective hnum, Prod.mk.injEq]
  exact ⟨rfl, by omega⟩

/-! ## Where an enqueue goes -/

/-- The CPU of an enqueue: the one it runs on, or one of the mask. -/
theorem redirectedTarget_where (m : Machine) (p : TaskStruct) (flags : EnqFlags) :
    (redirectedTarget m p flags).1 = m.cpu ∨ p.cpus (redirectedTarget m p flags).1 = true := by
  have htarget : (enqueueTarget m p flags).toNat = m.cpu
      ∨ p.cpus (enqueueTarget m p flags).toNat = true := by
    rcases enqueueTarget_cases m p flags with ⟨hallowed, -⟩ | ⟨hexec, -⟩
    · right
      rw [cpumaskTestCpu] at hallowed
      split at hallowed
      · cases hallowed
      · exact hallowed
    · left
      rw [hexec]
      rfl
  rw [redirectedTarget]
  split
  · split
    · rename_i cpu hpick
      exact .inr (mlfqPickUnoccupiedCpu_some hpick).1
    · exact htarget
  · exact htarget

/-- **A queue DSQ an enqueue fills** belongs to the CPU it runs on or to
one of the mask. -/
theorem mlfqEnqueue_queue_where {m : Machine} {p : TaskStruct} {tctx alloc : Option TaskCtx}
    {flags : EnqFlags} {now : U64} {i : DsqInsert}
    (hi : (mlfqEnqueue m p tctx alloc flags now).insert = some i) {q : Queue} {cpu : Int}
    (hdsq : i.dsq = .queue q cpu) : cpu.toNat = m.cpu ∨ p.cpus cpu.toNat = true := by
  rcases mlfqEnqueue_exits m p tctx alloc flags now with ⟨hnone, -⟩ | ⟨t, -, -, hexit⟩
  · rw [hnone] at hi
    cases hi
  · cases hexit with
    | noCpu route pinned cpu insert =>
        rw [insert] at hi
        cases hi
    | pinnedGlobal route pinned gauges tctx insert =>
        rw [insert] at hi
        cases hi
        cases hdsq
    | pinnedIdle route pinned allowed inserts =>
        rw [inserts.insert] at hi
        cases hi
        cases hdsq
    | pinnedBusy route pinned allowed inserts =>
        rw [inserts.insert] at hi
        cases hi
        cases hdsq
        right
        rw [cpumaskTestCpu] at allowed
        split at allowed
        · cases allowed
        · exact allowed
    | fastPath route free idle inserts =>
        rw [inserts.insert] at hi
        cases hi
        cases hdsq
    | preempt route free slow wakeup stays allowed slice inserts =>
        rw [inserts.insert] at hi
        cases hi
        cases hdsq
    | regular route free slow inserts =>
        rw [inserts.insert] at hi
        cases hi
        cases hdsq
        exact redirectedTarget_where m p flags

/-! ## The run -/

/-- What the kernel promises of an enqueue: it runs on one of the CPUs
and the mask of the task holds no others. -/
def QueueEvent.Promised (nr : Nat) : QueueEvent → Prop
  | .enqueue m p _ _ _ _ _ => m.cpu < nr ∧ ∀ d, p.cpus d = true → d < nr
  | _ => True

/-- The tasks are in DSQs of the CPUs. -/
def QueueState.Within (s : QueueState) (nr : Nat) : Prop := ∀ q c, s.dsqs q c ≠ [] → c < nr

theorem QueueState.Within.of_sublist {s s' : QueueState} {nr : Nat} (h : s.Within nr)
    (hsub : ∀ q c, (s'.dsqs q c).Sublist (s.dsqs q c)) : s'.Within nr := by
  intro q c hne
  refine h q c fun hnil => hne ?_
  have hempty := hsub q c
  rw [hnil] at hempty
  exact List.sublist_nil.mp hempty

theorem QueueState.remove_sublist (s : QueueState) (spot : Spot) (pid : Nat) (next : Whereabouts)
    (q : Queue) (c : Nat) : ((s.remove spot pid next).dsqs q c).Sublist (s.dsqs q c) := by
  by_cases hspot : spot = .queue q c
  · subst hspot
    have herase : (s.remove (.queue q c) pid next).dsqs q c
        = (s.dsqs q c).eraseP fun t => decide (t.pid = pid) := setDsq_self ..
    rw [herase]
    exact List.eraseP_sublist
  · rw [s.remove_dsqs_other hspot]

/-- An insert into the DSQ of a CPU. -/
theorem QueueState.Within.insert {s : QueueState} {nr : Nat} (h : s.Within nr) {spot : Spot}
    (hspot : ∀ q c, spot = .queue q c → c < nr) (t : DsqTask) (pos : Nat) :
    (s.insert spot t pos).Within nr := by
  intro q c hne
  by_cases hq : spot = .queue q c
  · exact hspot q c hq
  · rw [insert_dsqs_other hq] at hne
    exact h q c hne

/-- **A step stays within the CPUs.** -/
theorem stepQueues_within {s s' : QueueState} {e : QueueEvent} (h : stepQueues s e = some s')
    {nr : Nat} (hp : e.Promised nr) (hw : s.Within nr) : s'.Within nr := by
  cases e with
  | wake pid =>
      simp only [stepQueues, Option.ite_none_right_eq_some, Option.some.injEq] at h
      obtain ⟨-, rfl⟩ := h
      exact hw
  | select m p tctx prevCpu sync now pos =>
      simp only [stepQueues, Option.ite_none_right_eq_some] at h
      obtain ⟨-, h⟩ := h
      cases hinsert : (mlfqSelectCpu m p tctx prevCpu sync now).insert with
      | none =>
          rw [hinsert] at h
          cases h
          exact hw
      | some i =>
          rw [hinsert] at h
          cases h
          refine hw.insert (fun q c hspot => ?_) _ _
          unfold DsqInsert.spot at hspot
          rw [mlfqSelectCpu_insert hinsert] at hspot
          cases hspot
  | enqueue m p tctx alloc flags now pos =>
      simp only [stepQueues, Option.ite_none_right_eq_some] at h
      obtain ⟨-, h⟩ := h
      cases hinsert : (mlfqEnqueue m p tctx alloc flags now).insert with
      | none =>
          rw [hinsert] at h
          cases h
          exact hw
      | some i =>
          rw [hinsert] at h
          cases h
          refine hw.insert (fun q c hspot => ?_) _ _
          unfold DsqInsert.spot at hspot
          cases hdsq : i.dsq with
          | global =>
              rw [hdsq] at hspot
              cases hspot
          | loc =>
              rw [hdsq] at hspot
              cases hspot
          | localOn cpu =>
              rw [hdsq] at hspot
              cases hspot
          | queue q' cpu =>
              rw [hdsq] at hspot
              cases hspot
              rcases mlfqEnqueue_queue_where hinsert hdsq with hexec | hmask
              · rw [hexec]
                exact hp.1
              · exact hp.2 _ hmask
  | dispatch env prev gauges records =>
      cases h
      obtain ⟨new, -, hmoves⟩ := mlfqDispatch_movesTo env prev
        { dsqs := s.dsqs, gauges := gauges, records := records }
      exact hw.of_sublist hmoves.sublist
  | consume cpu pid =>
      simp only [stepQueues, Option.ite_none_right_eq_some, Option.some.injEq] at h
      obtain ⟨-, rfl⟩ := h
      have hout := hw.of_sublist (s.remove_sublist .global pid .handed)
      exact hout.insert (fun q c hspot => by cases hspot) _ _
  | putBack cpu pid pos =>
      simp only [stepQueues, Option.ite_none_right_eq_some, Option.some.injEq] at h
      obtain ⟨-, rfl⟩ := h
      exact hw.insert (fun q c hspot => by cases hspot) _ _
  | pick cpu =>
      simp only [stepQueues] at h
      split at h
      · rename_i pid rest _ _
        cases h
        have hout := hw.of_sublist (s.remove_sublist (.loc cpu) pid .handed)
        exact hout.insert (fun q c hspot => by cases hspot) _ _
      · cases h
  | stop cpu runnable =>
      simp only [stepQueues] at h
      split at h
      · cases h
      · rename_i pid _
        cases h
        exact hw.of_sublist (s.remove_sublist (.running cpu) pid _)
  | dequeue pid runnable =>
      simp only [stepQueues] at h
      split at h
      · cases h
      · rename_i spot _ _
        cases h
        exact hw.of_sublist (s.remove_sublist spot pid _)
      · cases h

/-- **No task is ever put into a DSQ that is not there.** After a
successful `mlfq_init`, in every run of the callbacks, every queue DSQ
that holds a task was created by it, under an id that no other such DSQ
has and that the kernel does not take for a local one. -/
theorem queueRun_created {m m' : Machine} {createDsq : U64 → Int}
    (hinit : mlfqInit m createDsq = .ok m') {tr : List QueueEntry} {s : QueueState}
    (h : QueueRun tr s) (hpromised : ∀ x ∈ tr, x.event.Promised m'.nrCpuIds) {q : Queue} {c : Nat}
    (hne : s.dsqs q c ≠ []) :
    (0 ≤ createDsq (mlfqDsqId q c) ∨ createDsq (mlfqDsqId q c) = eExist)
    ∧ mlfqDsqId q c < scxDsqLocalOn
    ∧ ∀ q' c', s.dsqs q' c' ≠ [] → mlfqDsqId q c = mlfqDsqId q' c' → (q, c) = (q', c') := by
  obtain ⟨hseed, -, hmax⟩ := mlfqInit_ok hinit
  have hnr : m'.nrCpuIds = m.nrCpuIds := by
    rw [hseed]
    rfl
  have hwithin : s.Within m.nrCpuIds := by
    rw [← hnr]
    refine h.invariant_where (C := fun x => x.event.Promised m'.nrCpuIds)
      (I := fun _ s => s.Within m'.nrCpuIds) (fun s hs => ?_)
      (fun tr s e s' hw hstep hp => stepQueues_within hstep hp hw) hpromised
    subst hs
    intro q c hne
    exact absurd rfl hne
  have hrange : ∀ q c, s.dsqs q c ≠ [] → c < mlfqMaxCpus := fun q c hne =>
    Nat.lt_of_lt_of_le (hwithin q c hne) hmax
  exact ⟨mlfqInit_dsqs hinit (hwithin q c hne), mlfqDsqId_lt (hrange q c hne),
    fun q' c' hne' hid => mlfqDsqId_injective (hrange q c hne) (hrange q' c' hne') hid⟩

/-- Two CPUs on the production configuration. -/
def twoCpuMachine : Machine := Machine.zeroed ((({} : Config)).apply {}) 2

/-- The DSQ the woken task was put into is one of the six. -/
theorem queueRun_created_waiting :
    twoWaiting.dsqs .q2 0 ≠ [] ∧ mlfqInit twoCpuMachine (fun _ => 0) = .ok twoCpuMachine.seed
      ∧ ((0 : Int) ≤ 0 ∨ (0 : Int) = eExist) ∧ mlfqDsqId .q2 0 < scxDsqLocalOn := by
  obtain ⟨before, hrun, hevents⟩ := twoWaiting_run
  have hinit : mlfqInit twoCpuMachine (fun _ => 0) = .ok twoCpuMachine.seed := rfl
  have hne : twoWaiting.dsqs .q2 0 ≠ [] := by
    intro hnil
    have hmem : 2 ∈ pids (twoWaiting.dsqs .q2 0) := by decide +kernel
    rw [hnil] at hmem
    cases hmem
  have hpromised : ∀ x ∈ before, x.event.Promised twoCpuMachine.seed.nrCpuIds := by
    intro x hx
    have hevent := List.mem_map_of_mem (f := Entry.event) hx
    rw [hevents] at hevent
    simp only [List.mem_cons, List.not_mem_nil, or_false] at hevent
    rcases hevent with heq | heq | heq
    · rw [heq]
      trivial
    · rw [heq]
      exact ⟨by decide, fun d hd => of_decide_eq_true hd⟩
    · rw [heq]
      trivial
  obtain ⟨hcreated, hlow, -⟩ := queueRun_created hinit hrun hpromised hne
  exact ⟨hne, hinit, hcreated, hlow⟩

end ScxMlfq
