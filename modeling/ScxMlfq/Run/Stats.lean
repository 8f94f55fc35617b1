import ScxMlfq.Bpf.Enqueue
import ScxMlfq.Bpf.Init
import ScxMlfq.Daemon.Stats
import ScxMlfq.Lib.History

/-!
# Run — Stats

The counters of the scheduler between the callbacks that move them and
the clients of the stats server. Every client keeps the metrics it was
answered with last; what it is told next is what the callbacks of all the
CPUs have done since, whatever the other clients ask.
-/

namespace ScxMlfq

open Trace Meter

/-! ## The steps -/

/-- Which of the map lookups of a poll succeed. -/
structure Lookups where
  opLat : OpLatSlot → Bool := fun _ => true
  wakeups : Bool := true

structure StatsState where
  opLat : OpLatMap := fun _ _ _ => 0
  wakeups : Nat → U64 := fun _ => 0
  windows : Nat → U64 := fun _ => 0
  stat : StatsField → U64 := fun _ => 0
  capDropped : U64 := 0
  onCpu : U64 := 0
  uptimeNs : U64 := 0
  model : ModelGauges := {}
  sys : SysGauge := {}
  adapt : AdaptState
  /-- `prev` of every open connection. -/
  prev : Nat → Option Metrics := fun _ => none

/-- `Scheduler::get_metrics`. -/
def getMetrics (order : ByteOrder) (nr : Nat) (s : StatsState) (found : Lookups) : Metrics where
  stat := s.stat
  opLat := readOpLat order nr s.opLat found.opLat
  treeSamplesCapDropped := s.capDropped
  wakeupTotal := readWakeupTotal order nr s.wakeups s.windows found.wakeups
  adaptSteps := s.sys.adaptSteps.setWidth 64
  gauges := {
    onCpu := s.onCpu
    uptimeNs := s.uptimeNs
    model := s.model
    sysLatEmaUs := s.sys.latEma / nsecPerUsec
    sysRateEma := s.sys.rateEma
    tLEffUs := s.adapt.tLEffNs / nsecPerUsec
    tHEffUs := s.adapt.tHEffNs / nsecPerUsec
    tIntEffUs := s.adapt.tIntEffNs / nsecPerUsec
    tBndEffUs := s.adapt.tBndEffNs / nsecPerUsec
    guardEffUs := s.adapt.guardEffNs / nsecPerUsec
    adaptShift := s.adapt.shiftFp }

inductive StatsEvent where
  /-- `mlfq_op_lat_charge` on a CPU. -/
  | charge (cpu : Nat) (op : OpLatSlot) (startNs now : U64)
  | wakeup (cpu : Nat)
  /-- `__sync_fetch_and_add(&mlfq_stats.field, n)`. -/
  | bump (field : StatsField) (n : U64)
  | capDrop
  /-- An adaptation step, and what it leaves in the gauges. -/
  | adaptStep (sys : SysGauge) (adapt : AdaptState)
  /-- Everything else of the gauges. -/
  | gauge (onCpu uptimeNs : U64) (model : ModelGauges) (sys : SysGauge) (windows : Nat → U64)
  /-- A client connects: `open`. -/
  | connect (client : Nat) (found : Lookups)
  /-- The `top` op of a client: `read`. -/
  | read (client : Nat) (found : Lookups)

/-- The client an event answers, and with which lookups. -/
def StatsEvent.answers : StatsEvent → Option (Nat × Lookups)
  | .connect k found => some (k, found)
  | .read k found => some (k, found)
  | _ => none

/-- One step, on `nr` CPUs. -/
def stepStats (order : ByteOrder) (nr : Nat) (s : StatsState) : StatsEvent → Option StatsState
  | .charge cpu op startNs now =>
      if cpu < nr then some { s with opLat := mlfqOpLatCharge s.opLat cpu op startNs now } else none
  | .wakeup cpu =>
      if cpu < nr then
        some { s with wakeups := Function.update s.wakeups cpu (s.wakeups cpu + 1) }
      else none
  | .bump field n =>
      some { s with stat := Function.update s.stat field (s.stat field + n) }
  | .capDrop => some { s with capDropped := s.capDropped + 1 }
  | .adaptStep sys adapt =>
      some { s with sys := { sys with adaptSteps := s.sys.adaptSteps + 1 }, adapt := adapt }
  | .gauge onCpu uptimeNs model sys windows =>
      some { s with
        onCpu := onCpu
        uptimeNs := uptimeNs
        model := model
        sys := { sys with adaptSteps := s.sys.adaptSteps }
        windows := windows }
  | .connect k found =>
      some { s with prev := Function.update s.prev k (some (getMetrics order nr s found)) }
  | .read k found =>
      match s.prev k with
      | none => none
      | some _ =>
          some { s with prev := Function.update s.prev k (some (getMetrics order nr s found)) }

abbrev StatsEntry := Entry StatsState StatsEvent

/-- The runs of the scheduler from its attach. -/
abbrev StatsRun (order : ByteOrder) (nr : Nat) : List StatsEntry → StatsState → Prop :=
  Run (fun s e s' => stepStats order nr s e = some s') (fun s => ∃ adapt, s = { adapt := adapt })

/-- What a read returns: the delta to the metrics of the last answer. -/
def deltaOf (order : ByteOrder) (nr : Nat) (x : StatsEntry) : Option Metrics :=
  match x.event with
  | .read k found => (x.pre.prev k).map fun prev => (getMetrics order nr x.pre found).delta prev
  | _ => none

/-! ## What the events count -/

/-- The event charges `op` with a time of the bucket: not backwards, and
between its edges in microseconds. -/
def StatsEvent.Took (op : OpLatSlot) (b : Nat) : StatsEvent → Prop
  | .charge _ op' startNs now => op' = op ∧ ¬ Serial.Before now startNs
      ∧ opLatEdge b ≤ (now - startNs).toNat / 1000
      ∧ (now - startNs).toNat / 1000 < opLatEdge (b + 1)
  | _ => False

instance (op : OpLatSlot) (b : Nat) : (e : StatsEvent) → Decidable (e.Took op b)
  | .charge _ _ _ _ => inferInstanceAs (Decidable (_ ∧ ¬ _ ∧ _ ∧ _))
  | .wakeup _ => .isFalse id
  | .bump _ _ => .isFalse id
  | .capDrop => .isFalse id
  | .adaptStep _ _ => .isFalse id
  | .gauge _ _ _ _ _ => .isFalse id
  | .connect _ _ => .isFalse id
  | .read _ _ => .isFalse id

/-- The CPU of a charge or a wakeup. -/
def StatsEvent.onCpu : StatsEvent → Nat
  | .charge cpu _ _ _ => cpu
  | .wakeup cpu => cpu
  | _ => 0

def StatsEvent.isWakeup : StatsEvent → Bool
  | .wakeup _ => true
  | _ => false

def StatsEvent.isCapDrop : StatsEvent → Bool
  | .capDrop => true
  | _ => false

def StatsEvent.isAdaptStep : StatsEvent → Bool
  | .adaptStep .. => true
  | _ => false

/-- What an event adds to a counter. -/
def StatsEvent.adds (field : StatsField) : StatsEvent → U64
  | .bump f n => if f = field then n else 0
  | _ => 0

/-- The events of a kind in a trace. -/
def happened (p : StatsEvent → Bool) (tr : List StatsEntry) : Nat := tr.countP fun x => p x.event

/-- What the events of a trace add to a counter. -/
def added (field : StatsField) (tr : List StatsEntry) : U64 :=
  (tr.map fun x => x.event.adds field).sum

theorem happened_append (p : StatsEvent → Bool) (tr tr' : List StatsEntry) :
    happened p (tr ++ tr') = happened p tr + happened p tr' := List.countP_append ..

theorem happened_cons (p : StatsEvent → Bool) (x : StatsEntry) (tr : List StatsEntry) :
    happened p (x :: tr) = happened p tr + if p x.event then 1 else 0 := List.countP_cons ..

theorem added_append (field : StatsField) (tr tr' : List StatsEntry) :
    added field (tr ++ tr') = added field tr + added field tr' := by
  rw [added, List.map_append, List.sum_append]
  rfl

theorem added_cons (field : StatsField) (x : StatsEntry) (tr : List StatsEntry) :
    added field (x :: tr) = x.event.adds field + added field tr := by
  rw [added, List.map_cons, List.sum_cons]
  rfl

/-- A charge of a bucket is a time between its edges. -/
theorem opLatCharged_eq_some {startNs now : U64} {b : Nat} (hb : b < mlfqOpLatBuckets) :
    opLatCharged startNs now = some b ↔ ¬ Serial.Before now startNs
      ∧ opLatEdge b ≤ (now - startNs).toNat / 1000
      ∧ (now - startNs).toNat / 1000 < opLatEdge (b + 1) := by
  have hdiv : ((now - startNs) / nsecPerUsec).toNat = (now - startNs).toNat / 1000 := by
    rw [BitVec.toNat_udiv]
    rfl
  unfold opLatCharged
  by_cases hbefore : Serial.Before now startNs
  · rw [if_pos (mlfqTimeBefore_iff.mpr hbefore)]
    exact iff_of_false nofun fun h => h.1 hbefore
  · rw [if_neg fun h => hbefore (mlfqTimeBefore_iff.mp h), Option.some.injEq,
      mlfqOpLatBucket_eq_iff, hdiv]
    exact ⟨fun h => ⟨hbefore, h.2⟩, fun h => ⟨hb, h.2⟩⟩

/-! ## The counters follow the events -/

/-- What a step counts. -/
structure Counts (nr : Nat) (s : StatsState) (e : StatsEvent) (s' : StatsState) : Prop where
  opLat : ∀ op cpu, ∀ b < mlfqOpLatBuckets, s'.opLat op cpu b
    = s.opLat op cpu b + if (decide (e.Took op b) && decide (e.onCpu = cpu)) = true then 1 else 0
  wakeups : ∀ cpu, s'.wakeups cpu
    = s.wakeups cpu + if (e.isWakeup && decide (e.onCpu = cpu)) = true then 1 else 0
  charged : ∀ op b, e.Took op b → e.onCpu < nr
  woken : e.isWakeup = true → e.onCpu < nr
  stat : ∀ field, s'.stat field = s.stat field + e.adds field
  capDropped : s'.capDropped = s.capDropped + if e.isCapDrop = true then 1 else 0
  adaptSteps : s'.sys.adaptSteps = s.sys.adaptSteps + if e.isAdaptStep = true then 1 else 0

theorem stepStats_counts {order : ByteOrder} {nr : Nat} {s s' : StatsState} {e : StatsEvent}
    (h : stepStats order nr s e = some s') : Counts nr s e s' := by
  cases e with
  | charge cpu op startNs now =>
      simp only [stepStats, Option.ite_none_right_eq_some, Option.some.injEq] at h
      obtain ⟨hcpu, rfl⟩ := h
      refine ⟨fun op' cpu' b hb => ?_, fun _ => (add_zero _).symm, fun _ _ _ => hcpu, nofun,
        fun _ => (add_zero _).symm, (add_zero _).symm, (add_zero _).symm⟩
      have hslot : (op = op' ∧ cpu = cpu' ∧ opLatCharged startNs now = some b)
          ↔ (decide ((StatsEvent.charge cpu op startNs now).Took op' b)
            && decide (cpu = cpu')) = true := by
        rw [opLatCharged_eq_some hb, Bool.and_eq_true, decide_eq_true_eq, decide_eq_true_eq]
        unfold StatsEvent.Took
        tauto
      exact (mlfqOpLatCharge_apply ..).trans (congrArg _ (if_congr hslot rfl rfl))
  | wakeup cpu =>
      simp only [stepStats, Option.ite_none_right_eq_some, Option.some.injEq] at h
      obtain ⟨hcpu, rfl⟩ := h
      refine ⟨fun _ _ _ _ => (add_zero _).symm, fun cpu' => ?_, fun _ _ => False.elim,
        fun _ => hcpu, fun _ => (add_zero _).symm, (add_zero _).symm, (add_zero _).symm⟩
      show Function.update s.wakeups cpu (s.wakeups cpu + 1) cpu'
        = s.wakeups cpu' + if (true && decide (cpu = cpu')) = true then 1 else 0
      by_cases hsame : cpu = cpu'
      · subst hsame
        simp
      · simp [Function.update_of_ne (Ne.symm hsame), hsame]
  | bump f n =>
      cases h
      refine ⟨fun _ _ _ _ => (add_zero _).symm, fun _ => (add_zero _).symm, fun _ _ => False.elim,
        nofun, fun field => ?_, (add_zero _).symm, (add_zero _).symm⟩
      show Function.update s.stat f (s.stat f + n) field
        = s.stat field + if f = field then n else 0
      by_cases hsame : f = field
      · subst hsame
        simp
      · simp [Function.update_of_ne (Ne.symm hsame), hsame]
  | capDrop =>
      cases h
      exact ⟨fun _ _ _ _ => (add_zero _).symm, fun _ => (add_zero _).symm, fun _ _ => False.elim,
        nofun, fun _ => (add_zero _).symm, rfl, (add_zero _).symm⟩
  | adaptStep sys adapt =>
      cases h
      exact ⟨fun _ _ _ _ => (add_zero _).symm, fun _ => (add_zero _).symm, fun _ _ => False.elim,
        nofun, fun _ => (add_zero _).symm, (add_zero _).symm, rfl⟩
  | gauge onCpu uptimeNs model sys windows =>
      cases h
      exact ⟨fun _ _ _ _ => (add_zero _).symm, fun _ => (add_zero _).symm, fun _ _ => False.elim,
        nofun, fun _ => (add_zero _).symm, (add_zero _).symm, (add_zero _).symm⟩
  | connect k found =>
      cases h
      exact ⟨fun _ _ _ _ => (add_zero _).symm, fun _ => (add_zero _).symm, fun _ _ => False.elim,
        nofun, fun _ => (add_zero _).symm, (add_zero _).symm, (add_zero _).symm⟩
  | read k found =>
      simp only [stepStats] at h
      split at h
      · cases h
      · cases h
        exact ⟨fun _ _ _ _ => (add_zero _).symm, fun _ => (add_zero _).symm,
          fun _ _ => False.elim, nofun, fun _ => (add_zero _).symm, (add_zero _).symm,
          (add_zero _).symm⟩

/-- The counters hold what has happened. -/
structure StatsCounted (nr : Nat) (tr : List StatsEntry) (s : StatsState) : Prop where
  opLat : ∀ op cpu, ∀ b < mlfqOpLatBuckets, s.opLat op cpu b = BitVec.ofNat 64
    (happened (fun e => decide (e.Took op b) && decide (e.onCpu = cpu)) tr)
  wakeups : ∀ cpu, s.wakeups cpu = BitVec.ofNat 64
    (happened (fun e => e.isWakeup && decide (e.onCpu = cpu)) tr)
  charged : ∀ x ∈ tr, ∀ op b, x.event.Took op b → x.event.onCpu < nr
  woken : ∀ x ∈ tr, x.event.isWakeup = true → x.event.onCpu < nr
  stat : ∀ field, s.stat field = added field tr
  capDropped : s.capDropped = BitVec.ofNat 64 (happened StatsEvent.isCapDrop tr)
  adaptSteps : s.sys.adaptSteps = BitVec.ofNat 32 (happened StatsEvent.isAdaptStep tr)

/-- A counter that a step moves by one, or not. -/
theorem ofNat_happened {w : Nat} (p : StatsEvent → Bool) (x : StatsEntry) (tr : List StatsEntry) :
    BitVec.ofNat w (happened p tr) + (if p x.event = true then 1 else 0)
      = BitVec.ofNat w (happened p (x :: tr)) := by
  rw [happened_cons, BitVec.ofNat_add]
  congr 1
  exact (apply_ite (BitVec.ofNat w) _ 1 0).symm

theorem StatsRun.counted {order : ByteOrder} {nr : Nat} {tr : List StatsEntry} {s : StatsState}
    (h : StatsRun order nr tr s) : StatsCounted nr tr s := by
  induction h with
  | start hinit =>
      obtain ⟨adapt, rfl⟩ := hinit
      exact ⟨fun _ _ _ _ => rfl, fun _ => rfl, fun _ hx => absurd hx List.not_mem_nil,
        fun _ hx => absurd hx List.not_mem_nil, fun _ => rfl, rfl, rfl⟩
  | @snoc tr s s' e _ hstep ih =>
      have hcounts := stepStats_counts hstep
      refine ⟨fun op cpu b hb => ?_, fun cpu => ?_, fun x hx => ?_, fun x hx => ?_,
        fun field => ?_, ?_, ?_⟩
      · rw [hcounts.opLat op cpu b hb, ih.opLat op cpu b hb]
        exact ofNat_happened _ ⟨s, e, s'⟩ tr
      · rw [hcounts.wakeups cpu, ih.wakeups cpu]
        exact ofNat_happened _ ⟨s, e, s'⟩ tr
      · rcases List.mem_cons.mp hx with rfl | hx
        · exact hcounts.charged
        · exact ih.charged x hx
      · rcases List.mem_cons.mp hx with rfl | hx
        · exact hcounts.woken
        · exact ih.woken x hx
      · rw [hcounts.stat field, ih.stat field, added_cons, add_comm]
      · rw [hcounts.capDropped, ih.capDropped]
        exact ofNat_happened _ ⟨s, e, s'⟩ tr
      · rw [hcounts.adaptSteps, ih.adaptSteps]
        exact ofNat_happened _ ⟨s, e, s'⟩ tr

/-! ## What a poll reads -/

section

variable {order : ByteOrder} {nr : Nat} {tr : List StatsEntry} {s : StatsState}

/-- A slot of the histogram is the number of charges of all the CPUs. -/
theorem StatsCounted.opLat_read (h : StatsCounted nr tr s) (hnr : nr ≤ mlfqMaxCpus)
    {found : Lookups}
    {op : OpLatSlot} (hfound : found.opLat op = true) {b : Nat} (hb : b < mlfqOpLatBuckets) :
    (getMetrics order nr s found).opLat[op.num * mlfqOpLatBuckets + b]?
      = some (BitVec.ofNat 64 (happened (fun e => decide (e.Took op b)) tr)) := by
  have hsum : ∑ cpu ∈ Finset.range nr, s.opLat op cpu b
      = BitVec.ofNat 64 (happened (fun e => decide (e.Took op b)) tr) := by
    rw [Finset.sum_congr rfl fun cpu _ => h.opLat op cpu b hb, sum_ofNat]
    congr 1
    exact sum_countP tr (fun x => decide (x.event.Took op b)) (fun x => x.event.onCpu)
      fun x hx htook => h.charged x hx op b (of_decide_eq_true htook)
  rw [← hsum]
  exact readOpLat_getElem? order hnr s.opLat hfound hb

theorem StatsCounted.wakeups_read (h : StatsCounted nr tr s) (hnr : nr ≤ mlfqMaxCpus)
    {found : Lookups}
    (hfound : found.wakeups = true) :
    (getMetrics order nr s found).wakeupTotal
      = BitVec.ofNat 64 (happened StatsEvent.isWakeup tr) := by
  have hsum : ∑ cpu ∈ Finset.range nr, s.wakeups cpu
      = BitVec.ofNat 64 (happened StatsEvent.isWakeup tr) := by
    rw [Finset.sum_congr rfl fun cpu _ => h.wakeups cpu, sum_ofNat]
    congr 1
    exact sum_countP tr (fun x => x.event.isWakeup) (fun x => x.event.onCpu) h.woken
  rw [← hsum]
  show readWakeupTotal order nr s.wakeups s.windows found.wakeups = _
  rw [hfound]
  exact readWakeupTotal_eq order hnr s.wakeups s.windows

/-- An answer is kept for its client. -/
theorem stepStats_answers {s' : StatsState} {e : StatsEvent}
    (h : stepStats order nr s e = some s') (k : Nat) :
    s'.prev k = match e.answers with
      | some (k', found) => if k' = k then some (getMetrics order nr s found) else s.prev k
      | none => s.prev k := by
  have hupdate (found : Lookups) (k' : Nat) :
      Function.update s.prev k' (some (getMetrics order nr s found)) k
        = if k' = k then some (getMetrics order nr s found) else s.prev k := by
    by_cases hk : k' = k
    · rw [hk, Function.update_self, if_pos rfl]
    · rw [Function.update_of_ne (Ne.symm hk), if_neg hk]
  cases e with
  | charge cpu op startNs now =>
      simp only [stepStats, Option.ite_none_right_eq_some, Option.some.injEq] at h
      rw [← h.2]
      rfl
  | wakeup cpu =>
      simp only [stepStats, Option.ite_none_right_eq_some, Option.some.injEq] at h
      rw [← h.2]
      rfl
  | bump f n =>
      cases h
      rfl
  | capDrop =>
      cases h
      rfl
  | adaptStep sys adapt =>
      cases h
      rfl
  | gauge onCpu uptimeNs model sys windows =>
      cases h
      rfl
  | connect k' found =>
      cases h
      exact hupdate found k'
  | read k' found =>
      simp only [stepStats] at h
      split at h
      · cases h
      · cases h
        exact hupdate found k'

/-- What a client was answered with last stays with it. -/
theorem StatsRun.prev {between before : List StatsEntry} {y : StatsEntry}
    (h : StatsRun order nr (between ++ y :: before) s) {k : Nat} {found : Lookups}
    (hy : y.event.answers = some (k, found))
    (hno : ∀ z ∈ between, ∀ f, z.event.answers ≠ some (k, f)) :
    s.prev k = some (getMetrics order nr y.pre found) := by
  induction between generalizing s with
  | nil =>
      cases h with
      | @snoc tr pre s e _ hstep =>
          rw [stepStats_answers hstep k]
          simp only at hy
          rw [hy]
          exact if_pos rfl
  | cons z between ih =>
      cases h with
      | @snoc tr pre s e hrun hstep =>
          have hkept := ih hrun fun w hw => hno w (List.mem_cons_of_mem _ hw)
          have hother := hno _ List.mem_cons_self
          rw [stepStats_answers hstep k]
          simp only at hother
          split
          · rename_i k' f hans
            rw [if_neg fun hk => hother f (by rw [hans, hk])]
            exact hkept
          · exact hkept

/-- A kind that no answer is of counts the same around it. -/
theorem happened_around {p : StatsEvent → Bool} {y : StatsEntry} (hp : p y.event = false)
    (between before : List StatsEntry) :
    happened p (between ++ y :: before) = happened p between + happened p before := by
  rw [happened_append, happened_cons, hp, if_neg Bool.false_ne_true, Nat.add_zero]

end

/-- An answer counts nothing. -/
theorem StatsEvent.counts_of_answers {e : StatsEvent} {k : Nat} {found : Lookups}
    (h : e.answers = some (k, found)) :
    (∀ op b, decide (e.Took op b) = false) ∧ e.isWakeup = false ∧ e.isCapDrop = false
      ∧ e.isAdaptStep = false ∧ ∀ field, e.adds field = 0 := by
  cases e with
  | connect k' found' => exact ⟨fun _ _ => rfl, rfl, rfl, rfl, fun _ => rfl⟩
  | read k' found' => exact ⟨fun _ _ => rfl, rfl, rfl, rfl, fun _ => rfl⟩
  | charge cpu op startNs now => cases h
  | wakeup cpu => cases h
  | bump f n => cases h
  | capDrop => cases h
  | adaptStep sys adapt => cases h
  | gauge onCpu uptimeNs model sys windows => cases h

/-- **What a client is told is what happened since.** In every run, with
any other clients, the delta of a read holds the events of all the CPUs
between the last answer to the same client and this one: each counter by
what was added, each slot of the histogram by the callbacks whose time
lies between its edges, the wakeups and the dropped samples by their
number, and the adaptation steps while their word has not wrapped. -/
theorem statsRun_delta {order : ByteOrder} {nr : Nat} (hnr : nr ≤ mlfqMaxCpus)
    {between before : List StatsEntry} {x y : StatsEntry} {s : StatsState}
    (h : StatsRun order nr (x :: (between ++ y :: before)) s) {k : Nat} {last found : Lookups}
    (hy : y.event.answers = some (k, last)) (hx : x.event = .read k found)
    (hno : ∀ z ∈ between, ∀ f, z.event.answers ≠ some (k, f)) :
    ∃ d, deltaOf order nr x = some d
      ∧ (∀ field, d.stat field = added field between)
      ∧ (∀ op, ∀ b < mlfqOpLatBuckets, last.opLat op = true → found.opLat op = true →
        d.opLat[op.num * mlfqOpLatBuckets + b]?
          = some (BitVec.ofNat 64 (happened (fun e => decide (e.Took op b)) between)))
      ∧ (last.wakeups = true → found.wakeups = true →
        d.wakeupTotal = BitVec.ofNat 64 (happened StatsEvent.isWakeup between))
      ∧ d.treeSamplesCapDropped = BitVec.ofNat 64 (happened StatsEvent.isCapDrop between)
      ∧ (happened StatsEvent.isAdaptStep (between ++ y :: before) < 2 ^ 32 →
        d.adaptSteps = BitVec.ofNat 64 (happened StatsEvent.isAdaptStep between)) := by
  have hrun : StatsRun order nr (between ++ y :: before) x.pre := by
    cases h with
    | snoc hrun _ => exact hrun
  have hbefore : StatsRun order nr before y.pre := (Run.split hrun).1
  have hcur := StatsRun.counted hrun
  have hlast := StatsRun.counted hbefore
  obtain ⟨htook, hwakeup, hcap, hsteps, hadds⟩ := StatsEvent.counts_of_answers hy
  refine ⟨(getMetrics order nr x.pre found).delta (getMetrics order nr y.pre last), ?_,
    fun field => ?_, fun op b hb hl hf => ?_, fun hl hf => ?_, ?_, fun hfits => ?_⟩
  · rw [deltaOf, hx]
    simp only [StatsRun.prev hrun hy hno, Option.map_some]
  · show x.pre.stat field - y.pre.stat field = added field between
    rw [hcur.stat field, hlast.stat field, added_append, added_cons, hadds field, zero_add,
      add_sub_cancel_right]
  · show (List.zipWith _ _ _)[op.num * mlfqOpLatBuckets + b]? = _
    rw [List.getElem?_zipWith, hcur.opLat_read hnr hf hb, hlast.opLat_read hnr hl hb,
      happened_around (htook op b)]
    exact congrArg some (ofNat_add_sub _ _)
  · show (getMetrics order nr x.pre found).wakeupTotal
      - (getMetrics order nr y.pre last).wakeupTotal = _
    rw [hcur.wakeups_read hnr hf, hlast.wakeups_read hnr hl, happened_around hwakeup,
      ofNat_add_sub]
  · show x.pre.capDropped - y.pre.capDropped = _
    rw [hcur.capDropped, hlast.capDropped, happened_around hcap, ofNat_add_sub]
  · show x.pre.sys.adaptSteps.setWidth 64 - y.pre.sys.adaptSteps.setWidth 64 = _
    have hwiden {n : Nat} (hn : n < 2 ^ 32) :
        (BitVec.ofNat 32 n).setWidth 64 = BitVec.ofNat 64 n := by
      apply BitVec.eq_of_toNat_eq
      rw [BitVec.toNat_setWidth, BitVec.toNat_ofNat, BitVec.toNat_ofNat, Nat.mod_eq_of_lt hn]
    rw [happened_around hsteps] at hfits
    rw [hcur.adaptSteps, hlast.adaptSteps, happened_around hsteps, hwiden hfits,
      hwiden (Nat.lt_of_le_of_lt (Nat.le_add_left _ _) hfits), ofNat_add_sub]

/-! ## The counts of the callbacks -/

/-- The field of `mlfq_stats` a callback counts in. -/
def Stat.field : Stat → StatsField
  | .q1Placements => .q1Placements
  | .q2Placements => .q2Placements
  | .q3Placements => .q3Placements
  | .promotions => .promotions
  | .demotions => .demotions
  | .agingBoosts => .agingBoosts
  | .shortSleepBoosts => .shortSleepBoosts
  | .preemptionKicks => .preemptionKicks
  | .enqNoTctx => .enqNoTctx
  | .enqBadWeight => .enqBadWeight
  | .enqNoDeadline => .enqNoDeadline
  | .enqFastpath => .enqFastpath
  | .enqRegular => .enqRegular
  | .enqPinnedIdle => .enqPinnedIdle
  | .enqPinnedBusy => .enqPinnedBusy
  | .enqPinnedGlobal => .enqPinnedGlobal
  | .cpuperfBoosts => .cpuperfBoosts
  | .treeSamplesEmitted => .treeSamplesEmitted
  | .treeSamplesDropped => .treeSamplesDropped
  | .treeInference => .treeInference
  | .treeFallback => .treeFallback
  | .treeDisagree => .treeDisagree
  | .rtRedirects => .rtRedirects
  | .rtReenqs => .rtReenqs

/-- The counts of a callback, as it makes them. -/
def countsOf (stats : List Stat) : List StatsEvent := stats.map fun st => .bump st.field 1

/-- **What a callback counts arrives**: from any state its counts can be
made, and they add to each field the number of its counts there. -/
theorem StatsRun.counts {order : ByteOrder} {nr : Nat} (stats : List Stat)
    {tr : List StatsEntry} {s : StatsState} (h : StatsRun order nr tr s) :
    ∃ seg s', StatsRun order nr (seg ++ tr) s' ∧ seg.map Entry.event = (countsOf stats).reverse
      ∧ ∀ field, added field seg
        = BitVec.ofNat 64 (stats.countP fun st => decide (st.field = field)) := by
  induction stats generalizing tr s with
  | nil => exact ⟨[], s, h, rfl, fun _ => rfl⟩
  | cons st stats ih =>
      let counted : StatsState :=
        { s with stat := Function.update s.stat st.field (s.stat st.field + 1) }
      have hstep : stepStats order nr s (.bump st.field 1) = some counted := rfl
      obtain ⟨seg, s', hrun, hevents, hadded⟩ := ih (h.snoc hstep)
      refine ⟨seg ++ [⟨s, .bump st.field 1, counted⟩], s', ?_, ?_, fun field => ?_⟩
      · rw [List.append_assoc]
        exact hrun
      · rw [List.map_append, hevents]
        exact (List.reverse_cons).symm
      · rw [added_append, hadded, List.countP_cons, BitVec.ofNat_add]
        congr 1
        show (if st.field = field then 1 else 0) + 0 = _
        by_cases hf : st.field = field
        · simp [hf]
        · simp [hf]

/-- The counts of a callback do nothing else. -/
theorem event_of_counts {stats : List Stat} {seg : List StatsEntry}
    (h : seg.map Entry.event = (countsOf stats).reverse) {z : StatsEntry} (hz : z ∈ seg) :
    ∃ st : Stat, z.event = .bump st.field 1 := by
  have hmem : z.event ∈ countsOf stats := by
    rw [← List.mem_reverse, ← h]
    exact List.mem_map_of_mem hz
  obtain ⟨st, -, hbump⟩ := List.mem_map.mp hmem
  exact ⟨st, hbump.symm⟩

theorem happened_counts {stats : List Stat} {seg : List StatsEntry}
    (h : seg.map Entry.event = (countsOf stats).reverse) {kind : StatsEvent → Bool}
    (hkind : ∀ f n, kind (.bump f n) = false) : happened kind seg = 0 := by
  rw [happened, List.countP_eq_zero]
  intro z hz
  obtain ⟨st, hbump⟩ := event_of_counts h hz
  rw [hbump, hkind]
  exact Bool.false_ne_true

/-- The counts of the enqueue of a woken task into Q2. -/
def wakeupCounts : List Stat :=
  (mlfqEnqueue (Machine.zeroed {} 2).seed { pid := 1 } (some {}) none { wakeup := true } 9).stats

/-- A client connects, and before its first read a dispatch call takes
three microseconds on one CPU, and a task wakes up on the other and is
put into Q2. -/
theorem statsRun_delta_dispatch :
    ∃ x tr s d, StatsRun .little 2 (x :: tr) s ∧ x.event = .read 7 {}
      ∧ deltaOf .little 2 x = some d ∧ d.opLat[9]? = some 1 ∧ d.wakeupTotal = 1
      ∧ d.stat .q2Placements = 1 ∧ d.stat .q1Placements = 0 := by
  let next (s : StatsState) (e : StatsEvent) : StatsState := (stepStats .little 2 s e).getD s
  let s₀ : StatsState := { adapt := seedAdapt {} }
  let s₁ := next s₀ (.charge 1 .dispatch 2000 9000)
  let s₂ := next s₁ (.connect 7 {})
  let s₃ := next s₂ (.charge 1 .dispatch 1000 4000)
  let s₄ := next s₃ (.wakeup 0)
  let timed : List StatsEntry := [⟨s₃, .wakeup 0, s₄⟩, ⟨s₂, .charge 1 .dispatch 1000 4000, s₃⟩]
  let before : List StatsEntry := [⟨s₀, .charge 1 .dispatch 2000 9000, s₁⟩]
  have hwoken : StatsRun .little 2 (timed ++ ⟨s₁, .connect 7 {}, s₂⟩ :: before) s₄ :=
    .snoc (.snoc (.snoc (.snoc (.start ⟨_, rfl⟩) rfl) rfl) rfl) rfl
  obtain ⟨seg, s₅, hcounted, hevents, hadded⟩ := StatsRun.counts wakeupCounts hwoken
  have hquiet : ∀ z ∈ seg ++ timed, ∀ f, z.event.answers ≠ some (7, f) := by
    intro z hz f
    rcases List.mem_append.mp hz with hz | hz
    · obtain ⟨st, hbump⟩ := event_of_counts hevents hz
      rw [hbump]
      nofun
    · simp only [timed, List.mem_cons, List.not_mem_nil, or_false] at hz
      rcases hz with rfl | rfl <;> nofun
  rw [← List.append_assoc] at hcounted
  -- nothing since its answer has touched what the client was told
  have hread : ∃ s₆, stepStats .little 2 s₅ (.read 7 {}) = some s₆ := by
    rw [stepStats, StatsRun.prev hcounted rfl hquiet]
    exact ⟨_, rfl⟩
  obtain ⟨s₆, hread⟩ := hread
  have hrun := hcounted.snoc hread
  obtain ⟨d, hdelta, hstat, hslots, hwakeups, -⟩ :=
    statsRun_delta (by decide) hrun rfl rfl hquiet
  have hcounts (field : StatsField) : d.stat field
      = BitVec.ofNat 64 (wakeupCounts.countP fun st => decide (st.field = field)) := by
    rw [hstat field, added_append, hadded]
    exact add_zero _
  refine ⟨_, _, _, d, hrun, rfl, hdelta, ?_, ?_, ?_, ?_⟩
  · refine (hslots .dispatch 1 (by decide) rfl rfl).trans ?_
    rw [happened_append, happened_counts hevents fun f n => by rfl]
    decide
  · refine (hwakeups rfl rfl).trans ?_
    rw [happened_append, happened_counts hevents fun f n => by rfl]
    decide
  · rw [hcounts]
    decide +kernel
  · rw [hcounts]
    decide +kernel

end ScxMlfq
