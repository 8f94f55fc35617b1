import ScxMlfq.Bpf.Lifecycle
import ScxMlfq.Daemon.Config
import ScxMlfq.Lib.Earliest

/-!
# Bpf — Dispatch

`src/bpf/dispatch.bpf.c`: the keep path of an outgoing task, and the three
slot loops that move tasks into the local DSQ, each slot from the own DSQ
first, then from the CPUs of the own cache domain, then from a rotating
window of the machine.

The rate-limited adaptation step at the head of `mlfq_dispatch` runs on
the system gauges alone and is not part of the function modelled here.
-/

namespace ScxMlfq

/-! ## The DSQs -/

/-- A task in a queue DSQ: `p->scx.dsq_vtime` and `p->cpus_ptr`. -/
structure DsqTask where
  pid : Nat
  vtime : U64
  cpus : Nat → Bool

/-- The queue DSQs, each in the order the kernel keeps it. -/
abbrev Dsqs := Queue → Nat → List DsqTask

/-- What a dispatch call changes. -/
structure DispatchState where
  dsqs : Dsqs
  /-- The tasks moved to the local DSQ, latest last, each with the DSQ it
  came from. -/
  loc : List ((Queue × Nat) × DsqTask) := []
  /-- The number of `scx_bpf_dsq_move_to_local` calls so far. -/
  calls : Nat := 0
  gauges : Gauges := {}
  /-- The task storage, by pid. -/
  records : Nat → Option TaskCtx := fun _ => none

/-- What a dispatch call reads: the machine, the published domain lists,
the CPU it is for, and the kernel's own check at the n-th move, which is
made under the DSQ lock and need not agree with an earlier peek. -/
structure DispatchEnv where
  machine : Machine
  llcCpus : Nat → LlcCpuList
  cpu : Nat
  runs : Nat → DsqTask → Bool

/-- `scx_bpf_dsq_move_to_local`: the first task of the DSQ that can run
here. -/
def moveToLocal (env : DispatchEnv) (q : Queue) (c : Nat) (s : DispatchState) :
    Bool × DispatchState :=
  match (s.dsqs q c).find? (env.runs s.calls) with
  | none => (false, { s with calls := s.calls + 1 })
  | some t => (true, { s with
      dsqs := Function.update s.dsqs q
        (Function.update (s.dsqs q) c ((s.dsqs q c).eraseP (env.runs s.calls)))
      loc := s.loc ++ [((q, c), t)]
      calls := s.calls + 1 })

/-- The peek of a DSQ: its head, where it can run on `cpu`. -/
def peekHead (dsq : List DsqTask) (cpu : Nat) : Option DsqTask :=
  match dsq with
  | [] => none
  | t :: _ => if t.cpus cpu then some t else none

/-- `mlfq_remote_work_probe`. -/
def mlfqRemoteWorkProbe (dsqs : Dsqs) (cand cpu : Nat) : Bool :=
  (peekHead (dsqs .q1 cand) cpu).isSome || (peekHead (dsqs .q2 cand) cpu).isSome
    || (peekHead (dsqs .q3 cand) cpu).isSome

/-! ## The steal -/

namespace DispatchEnv

/-- The domain of the consuming CPU. -/
def ownLlc (env : DispatchEnv) : Nat :=
  if env.cpu < mlfqMaxCpus then env.machine.rod.cpuLlc env.cpu else mlfqMaxLlcs

/-- The list of the own domain, where the map has one. -/
def ownLlcList (env : DispatchEnv) : Option LlcCpuList :=
  if env.cpu < mlfqMaxCpus ∧ env.ownLlc < env.machine.rod.nrLlcs ∧ env.ownLlc < mlfqMaxLlcs
  then some (env.llcCpus env.ownLlc) else none

/-- The populated length of the own list, zero where Tier A is dead. -/
def tierANr (env : DispatchEnv) : Nat :=
  match env.ownLlcList with
  | none => 0
  | some list =>
      if list.nr > 0 ∧ env.ownLlc < env.machine.rod.nrLlcs then min list.nr mlfqLlcScanMax
      else 0

/-- The CPUs Tier A probes, in order. -/
def tierA (env : DispatchEnv) (off : Nat) : List Nat :=
  (List.range mlfqLlcScanMax).filterMap fun i =>
    let idx := (off + i) % mlfqLlcScanMax
    if idx ≥ env.tierANr then none
    else
      let cand := (env.llcCpus env.ownLlc).cpus idx
      if cand = env.cpu then none else some cand

/-- The CPUs Tier B probes, in order. The index of the domain table is
masked to its length. -/
def tierB (env : DispatchEnv) (off : Nat) : List Nat :=
  (List.range env.machine.stealScan).filterMap fun i =>
    let cand := (off + i) % env.machine.nrCpuIds
    if cand = env.cpu then none
    else if env.tierANr > 0 ∧ env.machine.rod.cpuLlc (cand % mlfqMaxCpus) = env.ownLlc then none
    else some cand

/-- The eligible heads of a list of CPUs. -/
def heads (env : DispatchEnv) (q : Queue) (dsqs : Dsqs) (probes : List Nat) :
    List (Nat × DsqTask) :=
  probes.filterMap fun cand => (peekHead (dsqs q cand) env.cpu).map fun t => (cand, t)

/-- The earliest of the eligible heads. -/
def scan (env : DispatchEnv) (q : Queue) (dsqs : Dsqs) (probes : List Nat) :
    Option (Nat × DsqTask) :=
  Serial.earliest (fun x => x.2.vtime) (env.heads q dsqs probes)

/-- The head a slot steals: from Tier A, and from Tier B where Tier A
found nothing and there can be more than its domain. -/
def steal (env : DispatchEnv) (q : Queue) (off : Nat) (dsqs : Dsqs) :
    Option (Nat × DsqTask) :=
  match if env.tierANr > 0 then env.scan q dsqs (env.tierA off) else none with
  | some best => some best
  | none =>
      if ¬ env.tierANr > 0 ∨ env.machine.rod.nrLlcs ≠ 1 then
        env.scan q dsqs (env.tierB off)
      else none

end DispatchEnv

/-- The ownership record and the gauges after a steal of `best`. -/
def enterStolen (env : DispatchEnv) (q : Queue) (best : DsqTask) (s : DispatchState) :
    DispatchState :=
  match s.records best.pid with
  | none => s
  | some t =>
      let r := mlfqRunnableEnter s.gauges t q (env.machine.llcOfCpu env.cpu)
      { s with gauges := r.1, records := Function.update s.records best.pid (some r.2) }

/-! ## The slot loops -/

/-- The slots of one queue, from the rotating offset: the number of tasks
moved, and the state. -/
def dispatchSlots (env : DispatchEnv) (q : Queue) (off : Nat) :
    Nat → Nat → DispatchState → Nat × DispatchState
  | 0, moved, s => (moved, s)
  | slots + 1, moved, s =>
      let own := moveToLocal env q env.cpu s
      if own.1 then dispatchSlots env q off slots (moved + 1) own.2
      else
        match env.steal q off own.2.dsqs with
        | none => (moved, own.2)
        | some (cand, best) =>
            let stolen := moveToLocal env q cand own.2
            if stolen.1
            then dispatchSlots env q off slots (moved + 1) (enterStolen env q best stolen.2)
            else dispatchSlots env q off slots moved stolen.2

/-- The rotating offset: the scan counter of the CPU modulo the number of
CPUs. -/
def scanOff (m : Machine) (cpu : Nat) : Nat :=
  match m.lookupCpuState cpu with
  | none => 0
  | some c => c.stealScanOff.toNat % m.nrCpuIds

/-- `mlfq_dispatch_queue`. -/
def mlfqDispatchQueue (env : DispatchEnv) (q : Queue) (quota : U32) (s : DispatchState) :
    Nat × DispatchState :=
  dispatchSlots env q (scanOff env.machine env.cpu) quota.toNat 0 s

/-! ## The callback -/

/-- The outgoing task: `SCX_TASK_QUEUED` and its pid. -/
structure PrevTask where
  pid : Nat
  queued : Bool

structure DispatchResult where
  machine : Machine
  state : DispatchState
  /-- The slice of `scx_bpf_task_set_slice(prev, slice)`. -/
  granted : Option U64 := none
  /-- The tasks moved for Q1, Q2 and Q3. -/
  moved : Nat × Nat × Nat := (0, 0, 0)
  /-- The quota handed to the Q3 loop. -/
  q3Quota : U32
  /-- What is left of the batch. -/
  remaining : U32

/-- The scan counter of the CPU, advanced. -/
def bumpScanOff (m : Machine) (cpu : Nat) : Machine :=
  { m with
    cpuState := Function.update m.cpuState cpu
      ((m.cpuState cpu).map fun c => { c with stealScanOff := c.stealScanOff + 1 }) }

/-- The remote CPU the keep path probes. -/
def probeCand (m : Machine) (cpu : Nat) : Nat :=
  if scanOff m cpu = cpu then (scanOff m cpu + 1) % m.nrCpuIds else scanOff m cpu

/-- All queue DSQs of the CPU are empty. -/
def ownEmpty (dsqs : Dsqs) (cpu : Nat) : Bool :=
  (dsqs .q1 cpu).isEmpty && (dsqs .q2 cpu).isEmpty && (dsqs .q3 cpu).isEmpty

/-- The task the keep path grants: queued, with a context, while the own
DSQs are empty and the probed CPU has nothing to steal. -/
def keeps (env : DispatchEnv) (prev : Option PrevTask) (s : DispatchState) :
    Option (Nat × TaskCtx) :=
  match prev with
  | none => none
  | some prev =>
      if prev.queued ∧ ownEmpty s.dsqs env.cpu then
        match s.records prev.pid with
        | none => none
        | some t =>
            if env.machine.nrCpuIds > 1 ∧
                mlfqRemoteWorkProbe s.dsqs (probeCand env.machine env.cpu) env.cpu then none
            else some (prev.pid, t)
      else none

/-- The three slot loops. -/
def dispatchQueues (env : DispatchEnv) (s : DispatchState) : DispatchResult :=
  let rod := env.machine.rod
  let r₁ := mlfqDispatchQueue env .q1 rod.q1Quota s
  let remaining := rod.dispatchMaxBatch - BitVec.ofNat 32 r₁.1
  let r₂ := mlfqDispatchQueue env .q2 rod.q2Quota r₁.2
  let remaining := remaining - BitVec.ofNat 32 r₂.1
  let r₃ := mlfqDispatchQueue env .q3 remaining r₂.2
  { machine := env.machine
    state := r₃.2
    moved := (r₁.1, r₂.1, r₃.1)
    q3Quota := remaining
    remaining := remaining - BitVec.ofNat 32 r₃.1 }

/-- `mlfq_dispatch`. -/
def mlfqDispatch (env : DispatchEnv) (prev : Option PrevTask) (s : DispatchState) :
    DispatchResult :=
  let batch := env.machine.rod.dispatchMaxBatch
  if env.machine.nrCpuIds = 0 then
    { machine := env.machine, state := s, q3Quota := 0, remaining := batch }
  else
    let env := { env with machine := bumpScanOff env.machine env.cpu }
    match keeps env prev s with
    | some (pid, t) =>
        { machine := env.machine
          state := { s with records := Function.update s.records pid (some (mlfqKeepRunning t)) }
          granted := some (mlfqQueueSlice env.machine.rod t.queue)
          q3Quota := 0
          remaining := batch }
    | none => dispatchQueues env s

/-! ## The moves -/

/-- The tasks of a DSQ the kernel lets run here at every move. -/
def RunsAlways (env : DispatchEnv) (runs : DsqTask → Bool) : Prop :=
  ∀ n t, runs t = true → env.runs n t = true

/-- What a slot loop of queue `q` leaves: only DSQs of that queue change,
and the local DSQ grows by the tasks it moved. -/
structure Moved (q : Queue) (s s' : DispatchState) (moved : Nat) : Prop where
  others : ∀ q', q' ≠ q → s'.dsqs q' = s.dsqs q'
  loc : ∃ new, s'.loc = s.loc ++ new ∧ new.length = moved ∧ ∀ x ∈ new, x.1.1 = q

namespace Moved

variable {q : Queue} {s s' s'' : DispatchState} {n k : Nat}

theorem refl (q : Queue) (s : DispatchState) : Moved q s s 0 :=
  ⟨fun _ _ => rfl, [], by simp, rfl, by simp⟩

theorem trans (h : Moved q s s' n) (h' : Moved q s' s'' k) : Moved q s s'' (n + k) := by
  obtain ⟨new, hloc, hlen, hq⟩ := h.loc
  obtain ⟨new', hloc', hlen', hq'⟩ := h'.loc
  refine ⟨fun q' hne => (h'.others q' hne).trans (h.others q' hne), new ++ new', ?_, ?_, ?_⟩
  · rw [hloc', hloc, List.append_assoc]
  · rw [List.length_append, hlen, hlen']
  · intro x hx
    rcases List.mem_append.mp hx with hx | hx
    · exact hq x hx
    · exact hq' x hx

end Moved

/-- **A move takes one task of its DSQ, or none.** -/
theorem moveToLocal_moved (env : DispatchEnv) (q : Queue) (c : Nat) (s : DispatchState) :
    Moved q s (moveToLocal env q c s).2 (if (moveToLocal env q c s).1 then 1 else 0) := by
  rw [moveToLocal]
  split
  · exact ⟨fun _ _ => rfl, [], by simp, rfl, by simp⟩
  · rename_i t _
    exact ⟨fun q' hne => Function.update_of_ne hne .., [((q, c), t)], rfl, rfl, by simp⟩

/-- The ownership record of a steal is no part of the DSQs. -/
theorem enterStolen_moved (env : DispatchEnv) (q : Queue) (best : DsqTask)
    (s : DispatchState) : Moved q s (enterStolen env q best s) 0 := by
  rw [enterStolen]
  split
  · exact .refl q s
  · exact ⟨fun _ _ => rfl, [], by simp, rfl, by simp⟩

/-- **The slots of a queue** move at most one task each. -/
theorem dispatchSlots_moved (env : DispatchEnv) (q : Queue) (off slots moved : Nat)
    (s : DispatchState) :
    ∃ n, n ≤ slots ∧ (dispatchSlots env q off slots moved s).1 = moved + n
      ∧ Moved q s (dispatchSlots env q off slots moved s).2 n := by
  induction slots generalizing moved s with
  | zero => exact ⟨0, Nat.le_refl 0, rfl, .refl q s⟩
  | succ slots ih =>
      have hown := moveToLocal_moved env q env.cpu s
      rw [dispatchSlots]
      generalize moveToLocal env q env.cpu s = own at hown ⊢
      obtain ⟨took, s₁⟩ := own
      cases took with
      | true =>
          obtain ⟨n, hn, heq, hm⟩ := ih (moved + 1) s₁
          exact ⟨1 + n, by omega, heq.trans (by omega), hown.trans hm⟩
      | false =>
          show ∃ n, n ≤ slots + 1 ∧ _ ∧ _
          simp only [Bool.false_eq_true, if_false]
          split
          · exact ⟨0, Nat.zero_le _, rfl, hown⟩
          · rename_i cand best _
            have hstolen := moveToLocal_moved env q cand s₁
            generalize moveToLocal env q cand s₁ = stolen at hstolen ⊢
            obtain ⟨took', s₂⟩ := stolen
            cases took' with
            | true =>
                obtain ⟨n, hn, heq, hm⟩ := ih (moved + 1) (enterStolen env q best s₂)
                have hall := ((hown.trans hstolen).trans (enterStolen_moved env q best s₂)).trans hm
                exact ⟨1 + n, by omega, heq.trans (by omega), by simpa using hall⟩
            | false =>
                obtain ⟨n, hn, heq, hm⟩ := ih moved s₂
                refine ⟨n, by omega, heq, ?_⟩
                simpa using (hown.trans hstolen).trans hm

/-- The tasks of the new part of the local DSQ that came from one DSQ. -/
def fromDsq (d : Queue × Nat) (moved : List ((Queue × Nat) × DsqTask)) : Nat :=
  moved.countP fun x => decide (x.1 = d)

/-- A move from the own DSQ succeeds while it holds a task that can run. -/
theorem moveToLocal_own {env : DispatchEnv} {runs : DsqTask → Bool} (hr : RunsAlways env runs)
    {q : Queue} {s : DispatchState} (h : 0 < (s.dsqs q env.cpu).countP runs) :
    ∃ t s', moveToLocal env q env.cpu s = (true, s')
      ∧ s'.loc = s.loc ++ [((q, env.cpu), t)]
      ∧ (s.dsqs q env.cpu).countP runs ≤ (s'.dsqs q env.cpu).countP runs + 1 := by
  obtain ⟨t, ht, hrun⟩ := List.countP_pos_iff.mp h
  rw [moveToLocal]
  cases hfind : (s.dsqs q env.cpu).find? (env.runs s.calls) with
  | none => exact absurd (hr s.calls t hrun) (List.find?_eq_none.mp hfind t ht)
  | some u =>
      refine ⟨u, _, rfl, rfl, ?_⟩
      simp only [Function.update_self]
      have hmem := List.mem_of_find?_eq_some hfind
      obtain ⟨a, l₁, l₂, -, -, hl, herase⟩ :=
        List.exists_of_eraseP hmem (List.find?_some hfind)
      rw [herase, hl]
      simp only [List.countP_append, List.countP_cons]
      split <;> omega

/-- **The own DSQ comes first**: a slot loop moves as many of its tasks
that can run as it has slots. -/
theorem dispatchSlots_own {env : DispatchEnv} {runs : DsqTask → Bool}
    (hr : RunsAlways env runs) (q : Queue) (off slots moved : Nat) (s : DispatchState) :
    ∃ new, (dispatchSlots env q off slots moved s).2.loc = s.loc ++ new
      ∧ min ((s.dsqs q env.cpu).countP runs) slots ≤ fromDsq (q, env.cpu) new := by
  induction slots generalizing moved s with
  | zero => exact ⟨[], by simp [dispatchSlots], by simp⟩
  | succ slots ih =>
      by_cases hpos : 0 < (s.dsqs q env.cpu).countP runs
      · obtain ⟨t, s', hmove, hloc, hcount⟩ := moveToLocal_own hr hpos
        obtain ⟨new, hnew, hmin⟩ := ih (moved + 1) s'
        refine ⟨((q, env.cpu), t) :: new, ?_, ?_⟩
        · rw [dispatchSlots, hmove]
          show (dispatchSlots env q off slots (moved + 1) s').2.loc = _
          rw [hnew, hloc, List.append_assoc]
          rfl
        · rw [fromDsq, List.countP_cons, if_pos (by simp)]
          rw [fromDsq] at hmin
          omega
      · obtain ⟨n, -, -, hm⟩ := dispatchSlots_moved env q off (slots + 1) moved s
        obtain ⟨new, hnew, -⟩ := hm.loc
        exact ⟨new, hnew, by omega⟩

/-! ## The batch -/

/-- The loc a queue loop leaves, from its parts. -/
theorem mlfqDispatchQueue_moved (env : DispatchEnv) (q : Queue) (quota : U32)
    (s : DispatchState) :
    (mlfqDispatchQueue env q quota s).1 ≤ quota.toNat
      ∧ Moved q s (mlfqDispatchQueue env q quota s).2 (mlfqDispatchQueue env q quota s).1 := by
  obtain ⟨n, hn, heq, hm⟩ :=
    dispatchSlots_moved env q (scanOff env.machine env.cpu) quota.toNat 0 s
  rw [Nat.zero_add] at heq
  rw [mlfqDispatchQueue, heq]
  exact ⟨hn, hm⟩

/-- The remainder of a batch after a loop that stayed within it. -/
theorem toNat_remaining {batch : U32} {n : Nat} (h : n ≤ batch.toNat) :
    (batch - BitVec.ofNat 32 n).toNat = batch.toNat - n := by
  have hn : (BitVec.ofNat 32 n).toNat = n := by
    rw [BitVec.toNat_ofNat, Nat.mod_eq_of_lt]
    have := batch.isLt
    omega
  rw [BitVec.toNat_sub_of_le (by rw [BitVec.le_def, hn]; exact h), hn]

/-- What the three loops leave: the tasks they moved, in order, within the
batch, and the Q3 loop served from its own DSQ first. -/
structure BatchServed (env : DispatchEnv) (s : DispatchState) (r : DispatchResult) : Prop where
  /-- The remainder is exact at both steps and at the end. -/
  q3Quota : r.q3Quota.toNat
    = env.machine.rod.dispatchMaxBatch.toNat - r.moved.1 - r.moved.2.1
  remaining : r.remaining.toNat
    = env.machine.rod.dispatchMaxBatch.toNat - r.moved.1 - r.moved.2.1 - r.moved.2.2
  within : r.moved.1 + r.moved.2.1 + r.moved.2.2 ≤ env.machine.rod.dispatchMaxBatch.toNat
  q1 : r.moved.1 ≤ env.machine.rod.q1Quota.toNat
  q2 : r.moved.2.1 ≤ env.machine.rod.q2Quota.toNat
  loc : ∃ new, r.state.loc = s.loc ++ new
    ∧ new.length = r.moved.1 + r.moved.2.1 + r.moved.2.2
    ∧ ∀ runs, RunsAlways env runs →
      min ((s.dsqs .q3 env.cpu).countP runs) r.q3Quota.toNat ≤ fromDsq (.q3, env.cpu) new

theorem dispatchQueues_served {env : DispatchEnv}
    (h : env.machine.rod.q1Quota.toNat + env.machine.rod.q2Quota.toNat
      ≤ env.machine.rod.dispatchMaxBatch.toNat) (s : DispatchState) :
    BatchServed env s (dispatchQueues env s) := by
  obtain ⟨h₁, m₁⟩ := mlfqDispatchQueue_moved env .q1 env.machine.rod.q1Quota s
  generalize hr₁ : mlfqDispatchQueue env .q1 env.machine.rod.q1Quota s = r₁ at h₁ m₁
  obtain ⟨h₂, m₂⟩ := mlfqDispatchQueue_moved env .q2 env.machine.rod.q2Quota r₁.2
  generalize hr₂ : mlfqDispatchQueue env .q2 env.machine.rod.q2Quota r₁.2 = r₂ at h₂ m₂
  have hrem₁ := @toNat_remaining env.machine.rod.dispatchMaxBatch r₁.1 (by omega)
  have hrem₂ := @toNat_remaining (env.machine.rod.dispatchMaxBatch - BitVec.ofNat 32 r₁.1)
    r₂.1 (by omega)
  generalize hquota : env.machine.rod.dispatchMaxBatch - BitVec.ofNat 32 r₁.1
    - BitVec.ofNat 32 r₂.1 = quota at hrem₂
  obtain ⟨h₃, m₃⟩ := mlfqDispatchQueue_moved env .q3 quota r₂.2
  have hown := fun runs (hr : RunsAlways env runs) =>
    dispatchSlots_own hr .q3 (scanOff env.machine env.cpu) quota.toNat 0 r₂.2
  change ∀ runs, RunsAlways env runs → ∃ new,
    (mlfqDispatchQueue env .q3 quota r₂.2).2.loc = _ ∧ _ at hown
  generalize hr₃ : mlfqDispatchQueue env .q3 quota r₂.2 = r₃ at h₃ m₃ hown
  have hrem₃ := @toNat_remaining quota r₃.1 h₃
  have heq : dispatchQueues env s
      = { machine := env.machine, state := r₃.2, moved := (r₁.1, r₂.1, r₃.1)
          q3Quota := quota, remaining := quota - BitVec.ofNat 32 r₃.1 } := by
    simp only [dispatchQueues, hr₁, hr₂, hquota, hr₃]
  obtain ⟨new₁, hloc₁, hlen₁, -⟩ := m₁.loc
  obtain ⟨new₂, hloc₂, hlen₂, -⟩ := m₂.loc
  obtain ⟨new₃, hloc₃, hlen₃, -⟩ := m₃.loc
  have hquota' : quota.toNat
      = env.machine.rod.dispatchMaxBatch.toNat - r₁.1 - r₂.1 := by omega
  have hremaining : (quota - BitVec.ofNat 32 r₃.1).toNat
      = env.machine.rod.dispatchMaxBatch.toNat - r₁.1 - r₂.1 - r₃.1 := by omega
  have hwithin : r₁.1 + r₂.1 + r₃.1 ≤ env.machine.rod.dispatchMaxBatch.toNat := by omega
  rw [heq]
  refine ⟨hquota', hremaining, hwithin, h₁, h₂, new₁ ++ new₂ ++ new₃, ?_, ?_, ?_⟩
  · show r₃.2.loc = _
    simp only [hloc₃, hloc₂, hloc₁, List.append_assoc]
  · rw [List.length_append, List.length_append, hlen₁, hlen₂, hlen₃]
  · intro runs hr
    obtain ⟨new, hnew, hmin⟩ := hown runs hr
    -- the first two loops leave the Q3 DSQs alone
    have hq3 : r₂.2.dsqs .q3 = s.dsqs .q3 := by
      rw [m₂.others .q3 (by decide), m₁.others .q3 (by decide)]
    have hsame : new = new₃ := List.append_cancel_left (hnew.symm.trans hloc₃)
    rw [hsame, hq3] at hmin
    rw [fromDsq, List.countP_append]
    rw [fromDsq] at hmin
    simp only
    omega

/-- A granted task leaves the loops out. -/
theorem mlfqDispatch_cases (env : DispatchEnv) (prev : Option PrevTask) (s : DispatchState) :
    (env.machine.nrCpuIds = 0 ∧ mlfqDispatch env prev s
        = { machine := env.machine, state := s, q3Quota := 0
            remaining := env.machine.rod.dispatchMaxBatch })
      ∨ (env.machine.nrCpuIds ≠ 0 ∧ ∃ pid t,
          keeps { env with machine := bumpScanOff env.machine env.cpu } prev s = some (pid, t)
          ∧ mlfqDispatch env prev s
            = { machine := bumpScanOff env.machine env.cpu
                state := { s with
                  records := Function.update s.records pid (some (mlfqKeepRunning t)) }
                granted := some (mlfqQueueSlice env.machine.rod t.queue)
                q3Quota := 0
                remaining := env.machine.rod.dispatchMaxBatch })
      ∨ (env.machine.nrCpuIds ≠ 0
          ∧ keeps { env with machine := bumpScanOff env.machine env.cpu } prev s = none
          ∧ mlfqDispatch env prev s
            = dispatchQueues { env with machine := bumpScanOff env.machine env.cpu } s) := by
  by_cases hnr : env.machine.nrCpuIds = 0
  · exact .inl ⟨hnr, by rw [mlfqDispatch, if_pos hnr]⟩
  · rw [mlfqDispatch, if_neg hnr]
    cases hk : keeps { env with machine := bumpScanOff env.machine env.cpu } prev s with
    | none => exact .inr (.inr ⟨hnr, rfl, by simp only [hk]⟩)
    | some x =>
        obtain ⟨pid, t⟩ := x
        refine .inr (.inl ⟨hnr, pid, t, rfl, ?_⟩)
        simp only [hk]
        rfl

/-- **The dispatch batch and the share of Q3.** Under a valid
configuration one call moves at most a batch, its remainder never wraps,
and Q3 is handed at least what the two quotas leave, which is at least
one; where the outgoing task is not kept, that many of the tasks of the
own Q3 DSQ that can run here are moved, or all of them. `mlfq_init`
accepts the configuration. -/
theorem mlfqDispatch_batch {c : Config} (hc : c.validate = .ok ()) {env : DispatchEnv}
    {rod : Rodata} (hrod : env.machine.rod = c.apply rod) (prev : Option PrevTask)
    (s : DispatchState) :
    let r := mlfqDispatch env prev s
    let share := c.dispatchMaxBatch.toNat - c.q1Quota.toNat - c.q2Quota.toNat
    (∃ new, r.state.loc = s.loc ++ new
        ∧ new.length = r.moved.1 + r.moved.2.1 + r.moved.2.2
        ∧ (env.machine.nrCpuIds ≠ 0 → r.granted = none → ∀ runs, RunsAlways env runs →
            min ((s.dsqs .q3 env.cpu).countP runs) share ≤ fromDsq (.q3, env.cpu) new))
      ∧ r.moved.1 + r.moved.2.1 + r.moved.2.2 ≤ c.dispatchMaxBatch.toNat
      ∧ r.remaining.toNat
          = c.dispatchMaxBatch.toNat - r.moved.1 - r.moved.2.1 - r.moved.2.2
      ∧ (env.machine.nrCpuIds ≠ 0 → r.granted = none → share ≤ r.q3Quota.toNat
          ∧ r.q3Quota.toNat = c.dispatchMaxBatch.toNat - r.moved.1 - r.moved.2.1)
      ∧ 1 ≤ share
      ∧ ¬ env.machine.rod.q1Quota + env.machine.rod.q2Quota ≥ env.machine.rod.dispatchMaxBatch
      ∧ ∀ (m : Machine) (createDsq : U64 → Int), m.rod = c.apply rod → 0 < m.nrCpuIds →
          m.nrCpuIds ≤ mlfqMaxCpus → (∀ id, 0 ≤ createDsq id) →
          mlfqInit m createDsq = .ok m.seed := by
  have hq := Config.quotasFit hc
  have hbatch : env.machine.rod.dispatchMaxBatch = c.dispatchMaxBatch := by rw [hrod]; rfl
  have hq1 : env.machine.rod.q1Quota = c.q1Quota := by rw [hrod]; rfl
  have hq2 : env.machine.rod.q2Quota = c.q2Quota := by rw [hrod]; rfl
  have hshare := hq.share
  have hinit : ∀ (m : Machine) (createDsq : U64 → Int), m.rod = c.apply rod →
      0 < m.nrCpuIds → m.nrCpuIds ≤ mlfqMaxCpus → (∀ id, 0 ≤ createDsq id) →
      mlfqInit m createDsq = .ok m.seed :=
    fun m createDsq hm hpos hmax hdsq => mlfqInit_of_valid hc hm hpos hmax hdsq
  have hcheck : ¬ env.machine.rod.q1Quota + env.machine.rod.q2Quota
      ≥ env.machine.rod.dispatchMaxBatch := by
    rw [hq1, hq2, hbatch]
    exact hq.not_ge
  intro r share
  have hone : 1 ≤ share := by
    show 1 ≤ c.dispatchMaxBatch.toNat - c.q1Quota.toNat - c.q2Quota.toNat
    omega
  rcases mlfqDispatch_cases env prev s with ⟨hnr, heq⟩ | ⟨hnr, pid, t, -, heq⟩ | ⟨hnr, -, heq⟩
  · -- a machine without CPUs returns before the loops
    have hr : r = _ := heq
    rw [hr]
    refine ⟨⟨[], by simp, rfl, fun h => absurd hnr h⟩, Nat.zero_le _, ?_,
      fun h => absurd hnr h, hone, hcheck, hinit⟩
    simp only [hbatch]
    omega
  · have hr : r = _ := heq
    rw [hr]
    refine ⟨⟨[], by simp, rfl, nofun⟩, Nat.zero_le _, ?_, nofun, hone, hcheck, hinit⟩
    simp only [hbatch]
    omega
  · have hr : r = _ := heq
    have hserved := @dispatchQueues_served
      { env with machine := bumpScanOff env.machine env.cpu }
      (by show env.machine.rod.q1Quota.toNat + env.machine.rod.q2Quota.toNat
            ≤ env.machine.rod.dispatchMaxBatch.toNat
          rw [hq1, hq2, hbatch]
          omega) s
    rw [← hr] at hserved
    obtain ⟨hquota, hremaining, hwithin, hm1, hm2, new, hloc, hlen, hown⟩ := hserved
    change _ = env.machine.rod.dispatchMaxBatch.toNat - _ - _ at hquota
    change _ = env.machine.rod.dispatchMaxBatch.toNat - _ - _ - _ at hremaining
    change _ ≤ env.machine.rod.dispatchMaxBatch.toNat at hwithin
    change _ ≤ env.machine.rod.q1Quota.toNat at hm1
    change _ ≤ env.machine.rod.q2Quota.toNat at hm2
    rw [hbatch] at hquota hremaining hwithin
    rw [hq1] at hm1
    rw [hq2] at hm2
    have hle : share ≤ r.q3Quota.toNat := by
      show c.dispatchMaxBatch.toNat - c.q1Quota.toNat - c.q2Quota.toNat ≤ _
      omega
    refine ⟨⟨new, hloc, hlen, fun _ _ runs hruns => ?_⟩, hwithin, hremaining,
      fun _ _ => ⟨hle, hquota⟩, hone, hcheck, hinit⟩
    have hmin := hown runs hruns
    change min ((s.dsqs .q3 env.cpu).countP runs) _ ≤ fromDsq (.q3, env.cpu) new at hmin
    omega

/-- Two CPUs on the production configuration, the own Q3 DSQ of CPU 0
holding 40 tasks, of which the 21st cannot run there. -/
def loadedEnv : DispatchEnv :=
  { machine := (Machine.zeroed ((({} : Config)).apply {}) 2).seed
    llcCpus := fun _ => {}
    cpu := 0
    runs := fun _ t => t.cpus 0 }

def loadedDsqs : DispatchState :=
  { dsqs := fun q c =>
      if q = .q3 ∧ c = 0
      then (List.range 40).map fun i => ⟨i, 0, fun _ => decide (i ≠ 20)⟩ else [] }

theorem mlfqDispatch_batch_loaded :
    ∃ new, (mlfqDispatch loadedEnv none loadedDsqs).state.loc = new ∧ new.length ≤ 32
      ∧ 20 ≤ fromDsq (.q3, 0) new := by
  have h := @mlfqDispatch_batch _ Config.default_valid loadedEnv _ rfl none loadedDsqs
  obtain ⟨⟨new, hloc, hlen, hown⟩, hle, -⟩ := h
  have hruns : RunsAlways loadedEnv fun t => t.cpus 0 := fun _ _ h => h
  have hmin := hown (by decide) rfl _ hruns
  refine ⟨new, hloc, ?_, ?_⟩
  · rw [hlen]
    exact hle
  · exact Nat.le_trans (by decide) hmin

end ScxMlfq
