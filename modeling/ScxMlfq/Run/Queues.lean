import ScxMlfq.Bpf.Insert
import ScxMlfq.Bpf.Moves
import ScxMlfq.Bpf.SelectCpu
import ScxMlfq.Lib.Trace

/-!
# Run — Queues

All tasks and all DSQs under any order of the callbacks. The kernel hands
a runnable task to an enqueue, keeps the DSQs in an order of its own,
calls the dispatch of any CPU at any time, runs the local DSQs from the
front, and may take a task out of a DSQ again. Every task is where its
last callback put it and nowhere else, and a task that waits in the DSQ
of its CPU comes forward with every dispatch call of the CPU.
-/

namespace ScxMlfq

open Trace Places

/-! ## The state -/

/-- Where the kernel finds a task. -/
inductive Spot where
  | global
  | loc (cpu : Nat)
  | queue (q : Queue) (cpu : Nat)
  | running (cpu : Nat)
deriving DecidableEq

/-- A task asleep, on its way to an enqueue, at a spot, or refused by an
enqueue that reported an error. -/
inductive Whereabouts where
  | asleep
  | handed
  | found (spot : Spot)
  | refused
deriving DecidableEq

def Whereabouts.spot : Whereabouts → Option Spot
  | .found spot => some spot
  | _ => none

structure QueueState where
  dsqs : Dsqs := fun _ _ => []
  locals : Nat → List Nat := fun _ => []
  global : List Nat := []
  onCpu : Nat → Option Nat := fun _ => none
  task : Nat → Whereabouts := fun _ => .asleep

/-- The pids at a spot. -/
def spotPids (dsqs : Dsqs) (locals : Nat → List Nat) (global : List Nat)
    (onCpu : Nat → Option Nat) : Spot → List Nat
  | .global => global
  | .loc c => locals c
  | .queue q c => pids (dsqs q c)
  | .running c => (onCpu c).toList

def QueueState.contents (s : QueueState) : Spot → List Nat :=
  spotPids s.dsqs s.locals s.global s.onCpu

def QueueState.place (s : QueueState) (pid : Nat) : Option Spot := (s.task pid).spot

/-! ## The steps -/

inductive QueueEvent where
  | wake (pid : Nat)
  | select (m : Machine) (p : TaskStruct) (tctx : Option TaskCtx) (prevCpu : Int) (sync : Bool)
      (now : U64) (pos : Nat)
  | enqueue (m : Machine) (p : TaskStruct) (tctx alloc : Option TaskCtx) (flags : EnqFlags)
      (now : U64) (pos : Nat)
  | dispatch (env : DispatchEnv) (prev : Option PrevTask) (gauges : Gauges)
      (records : Nat → Option TaskCtx)
  /-- The kernel moves a task of the global DSQ to a local one. -/
  | consume (cpu pid : Nat)
  /-- The kernel keeps a task with slice left on a local DSQ. -/
  | putBack (cpu pid pos : Nat)
  | pick (cpu : Nat)
  | stop (cpu : Nat) (runnable : Bool)
  /-- The kernel takes a task out of a DSQ. -/
  | dequeue (pid : Nat) (runnable : Bool)

/-- The spot of an insert. The local DSQ is that of `cpu`. -/
def DsqInsert.spot (i : DsqInsert) (cpu : Int) : Spot :=
  match i.dsq with
  | .global => .global
  | .loc => .loc cpu.toNat
  | .localOn c => .loc c.toNat
  | .queue q c => .queue q c.toNat

namespace QueueState

/-- A task inserted at a position of a DSQ. -/
def insert (s : QueueState) (spot : Spot) (t : DsqTask) (pos : Nat) : QueueState :=
  let s := { s with task := Function.update s.task t.pid (.found spot) }
  match spot with
  | .global => { s with global := putAt pos t.pid s.global }
  | .loc c => { s with locals := Function.update s.locals c (putAt pos t.pid (s.locals c)) }
  | .queue q c => { s with dsqs := setDsq s.dsqs q c (putAt pos t (s.dsqs q c)) }
  | .running c => { s with onCpu := Function.update s.onCpu c (some t.pid) }

/-- A task taken out of the list of its spot. -/
def remove (s : QueueState) (spot : Spot) (pid : Nat) (next : Whereabouts) : QueueState :=
  let s := { s with task := Function.update s.task pid next }
  match spot with
  | .global => { s with global := s.global.erase pid }
  | .loc c => { s with locals := Function.update s.locals c ((s.locals c).erase pid) }
  | .queue q c =>
      { s with dsqs := setDsq s.dsqs q c ((s.dsqs q c).eraseP fun t => decide (t.pid = pid)) }
  | .running c => { s with onCpu := Function.update s.onCpu c none }

/-- What a dispatch call leaves: its moves at the end of the local DSQ. -/
def moved (s : QueueState) (cpu : Nat) (r : DispatchState) : QueueState :=
  let new := r.loc.map fun x => x.2.pid
  { s with
    dsqs := r.dsqs
    locals := Function.update s.locals cpu (s.locals cpu ++ new)
    task := fun pid => if pid ∈ new then .found (.loc cpu) else s.task pid }

end QueueState

/-- What the kernel does with a task it stops or takes out. -/
def afterwards (runnable : Bool) : Whereabouts := if runnable then .handed else .asleep

/-- One callback or one move of the kernel. -/
def stepQueues (s : QueueState) : QueueEvent → Option QueueState
  | .wake pid =>
      if s.task pid = .asleep then some { s with task := Function.update s.task pid .handed }
      else none
  | .select m p tctx prevCpu sync now pos =>
      if s.task p.pid = .handed then
        let r := mlfqSelectCpu m p tctx prevCpu sync now
        match r.insert with
        | none => some s
        | some i => some (s.insert (i.spot r.cpu) ⟨p.pid, i.deadline.getD 0, p.cpus⟩ pos)
      else none
  | .enqueue m p tctx alloc flags now pos =>
      if s.task p.pid = .handed then
        match (mlfqEnqueue m p tctx alloc flags now).insert with
        | none => some { s with task := Function.update s.task p.pid .refused }
        | some i => some (s.insert (i.spot p.cpu) ⟨p.pid, i.deadline.getD 0, p.cpus⟩ pos)
      else none
  | .dispatch env prev gauges records =>
      some (s.moved env.cpu
        (mlfqDispatch env prev { dsqs := s.dsqs, gauges := gauges, records := records }).state)
  | .consume cpu pid =>
      if pid ∈ s.global then
        some ((s.remove .global pid .handed).insert (.loc cpu) ⟨pid, 0, fun _ => true⟩
          (s.locals cpu).length)
      else none
  | .putBack cpu pid pos =>
      if s.task pid = .handed then some (s.insert (.loc cpu) ⟨pid, 0, fun _ => true⟩ pos)
      else none
  | .pick cpu =>
      match s.onCpu cpu, s.locals cpu with
      | none, pid :: _ =>
          some ((s.remove (.loc cpu) pid .handed).insert (.running cpu) ⟨pid, 0, fun _ => true⟩ 0)
      | _, _ => none
  | .stop cpu runnable =>
      match s.onCpu cpu with
      | none => none
      | some pid => some (s.remove (.running cpu) pid (afterwards runnable))
  | .dequeue pid runnable =>
      match s.task pid with
      | .found (.running _) => none
      | .found spot => some (s.remove spot pid (afterwards runnable))
      | _ => none

abbrev QueueEntry := Entry QueueState QueueEvent

abbrev QueueRun : List QueueEntry → QueueState → Prop :=
  Run (fun s e s' => stepQueues s e = some s') (fun s => s = {})

/-! ## The lists of a spot -/

theorem place_update (s : QueueState) (pid : Nat) (w : Whereabouts) :
    (fun a => (Function.update s.task pid w a).spot) = Function.update s.place pid w.spot := by
  funext a
  by_cases ha : a = pid
  · subst ha
    rw [Function.update_self, Function.update_self]
  · rw [Function.update_of_ne ha, Function.update_of_ne ha]
    rfl

theorem pids_putAt (pos : Nat) (t : DsqTask) (l : List DsqTask) :
    (pids (putAt pos t l)).Perm (t.pid :: pids l) := (putAt_perm pos t l).map DsqTask.pid

namespace QueueState

/-- An insert grows the list of its spot, and no other. -/
theorem insert_contents (s : QueueState) (spot : Spot) (t : DsqTask) (pos : Nat)
    (hfree : ∀ c, spot = .running c → s.onCpu c = none) :
    ((s.insert spot t pos).contents spot).Perm (t.pid :: s.contents spot)
    ∧ ∀ j, j ≠ spot → (s.insert spot t pos).contents j = s.contents j := by
  cases spot with
  | global =>
      refine ⟨putAt_perm pos t.pid s.global, fun j hj => ?_⟩
      cases j with
      | global => exact absurd rfl hj
      | loc c => rfl
      | queue q c => rfl
      | running c => rfl
  | loc c =>
      refine ⟨?_, fun j hj => ?_⟩
      · show (Function.update s.locals c _ c).Perm _
        rw [Function.update_self]
        exact putAt_perm pos t.pid (s.locals c)
      · cases j with
        | global => rfl
        | loc c' => exact Function.update_of_ne (fun heq => hj (by rw [heq])) ..
        | queue q c' => rfl
        | running c' => rfl
  | queue q c =>
      refine ⟨?_, fun j hj => ?_⟩
      · show (pids (setDsq s.dsqs q c _ q c)).Perm _
        rw [setDsq_self]
        exact pids_putAt pos t (s.dsqs q c)
      · cases j with
        | global => rfl
        | loc c' => rfl
        | queue q' c' =>
            have hne : (q', c') ≠ (q, c) := fun heq => hj (by rw [(Prod.mk.inj heq).1,
              (Prod.mk.inj heq).2])
            exact congrArg pids (setDsq_other hne)
        | running c' => rfl
  | running c =>
      refine ⟨?_, fun j hj => ?_⟩
      · show (Function.update s.onCpu c _ c).toList.Perm (t.pid :: (s.onCpu c).toList)
        rw [Function.update_self, hfree c rfl]
        exact List.Perm.refl _
      · cases j with
        | global => rfl
        | loc c' => rfl
        | queue q c' => rfl
        | running c' =>
            exact congrArg Option.toList (Function.update_of_ne (fun heq => hj (by rw [heq])) ..)

/-- A removal shrinks the list of its spot, and no other. -/
theorem remove_contents (s : QueueState) (spot : Spot) (pid : Nat) (next : Whereabouts)
    (hin : pid ∈ s.contents spot) :
    (s.contents spot).Perm (pid :: (s.remove spot pid next).contents spot)
    ∧ ∀ j, j ≠ spot → (s.remove spot pid next).contents j = s.contents j := by
  cases spot with
  | global =>
      refine ⟨List.perm_cons_erase hin, fun j hj => ?_⟩
      cases j with
      | global => exact absurd rfl hj
      | loc c => rfl
      | queue q c => rfl
      | running c => rfl
  | loc c =>
      refine ⟨?_, fun j hj => ?_⟩
      · show (s.locals c).Perm (pid :: Function.update s.locals c _ c)
        rw [Function.update_self]
        exact List.perm_cons_erase hin
      · cases j with
        | global => rfl
        | loc c' => exact Function.update_of_ne (fun heq => hj (by rw [heq])) ..
        | queue q c' => rfl
        | running c' => rfl
  | queue q c =>
      refine ⟨?_, fun j hj => ?_⟩
      · show (pids (s.dsqs q c)).Perm (pid :: pids (setDsq s.dsqs q c _ q c))
        rw [setDsq_self]
        obtain ⟨t, ht, hpid⟩ := List.mem_map.mp hin
        have hfirst : ∃ l₁ u l₂, u.pid = pid ∧ s.dsqs q c = l₁ ++ u :: l₂
            ∧ (s.dsqs q c).eraseP (fun t => decide (t.pid = pid)) = l₁ ++ l₂ := by
          obtain ⟨u, l₁, l₂, -, hu, hl, herase⟩ :=
            @List.exists_of_eraseP _ (fun t : DsqTask => decide (t.pid = pid)) _ t ht
              (decide_eq_true hpid)
          exact ⟨l₁, u, l₂, of_decide_eq_true hu, hl, herase⟩
        obtain ⟨l₁, u, l₂, hu, hl, herase⟩ := hfirst
        rw [herase, hl, pids, pids, List.map_append, List.map_cons, List.map_append, hu]
        exact List.perm_middle
      · cases j with
        | global => rfl
        | loc c' => rfl
        | queue q' c' =>
            have hne : (q', c') ≠ (q, c) := fun heq => hj (by rw [(Prod.mk.inj heq).1,
              (Prod.mk.inj heq).2])
            exact congrArg pids (setDsq_other hne)
        | running c' => rfl
  | running c =>
      refine ⟨?_, fun j hj => ?_⟩
      · show (s.onCpu c).toList.Perm (pid :: (Function.update s.onCpu c none c).toList)
        rw [Function.update_self]
        have hon : s.onCpu c = some pid := Option.mem_toList.mp hin
        rw [hon]
        exact List.Perm.refl _
      · cases j with
        | global => rfl
        | loc c' => rfl
        | queue q c' => rfl
        | running c' =>
            exact congrArg Option.toList (Function.update_of_ne (fun heq => hj (by rw [heq])) ..)

/-- The two agree. -/
def Consistent (s : QueueState) : Prop := Holds s.contents s.place

theorem insert_task (s : QueueState) (spot : Spot) (t : DsqTask) (pos : Nat) :
    (s.insert spot t pos).task = Function.update s.task t.pid (.found spot) := by
  cases spot <;> rfl

theorem Consistent.insert {s : QueueState} (h : s.Consistent) {spot : Spot} {t : DsqTask}
    (pos : Nat) (hfree : s.place t.pid = none) (hcpu : ∀ c, spot = .running c → s.onCpu c = none) :
    (s.insert spot t pos).Consistent := by
  obtain ⟨hspot, hother⟩ := s.insert_contents spot t pos hcpu
  have hplace : (s.insert spot t pos).place = Function.update s.place t.pid (some spot) := by
    funext a
    rw [QueueState.place, insert_task]
    exact congrFun (place_update s t.pid (.found spot)) a
  rw [Consistent, hplace]
  exact Holds.put h hfree hspot hother

theorem remove_task (s : QueueState) (spot : Spot) (pid : Nat) (next : Whereabouts) :
    (s.remove spot pid next).task = Function.update s.task pid next := by
  cases spot <;> rfl

theorem Consistent.remove {s : QueueState} (h : s.Consistent) {spot : Spot} {pid : Nat}
    {next : Whereabouts} (hin : pid ∈ s.contents spot) (hnext : next.spot = none) :
    (s.remove spot pid next).Consistent := by
  obtain ⟨hspot, hother⟩ := s.remove_contents spot pid next hin
  have hplace : (s.remove spot pid next).place = Function.update s.place pid none := by
    funext a
    rw [QueueState.place, remove_task, ← hnext]
    exact congrFun (place_update s pid next) a
  rw [Consistent, hplace]
  exact Holds.take h hspot hother

end QueueState

/-- **Moves keep every task in one list.** -/
theorem DsqMoves.holds {d d' : Dsqs} {new : List ((Queue × Nat) × DsqTask)} (h : DsqMoves d new d')
    {locals : Nat → List Nat} {global : List Nat} {onCpu : Nat → Option Nat}
    {place : Nat → Option Spot} (cpu : Nat) (hh : Holds (spotPids d locals global onCpu) place) :
    Holds (spotPids d' (Function.update locals cpu (locals cpu ++ new.map fun x => x.2.pid)) global
        onCpu)
      (fun pid => if pid ∈ new.map (fun x => x.2.pid) then some (.loc cpu) else place pid) := by
  induction h generalizing locals place with
  | nil =>
      have hsame : Function.update locals cpu (locals cpu ++ []) = locals := by
        rw [List.append_nil, Function.update_eq_self]
      rw [List.map_nil, hsame]
      simpa using hh
  | @cons d d' q c l₁ l₂ t new takes rest ih =>
      -- the task leaves its DSQ, then enters the local one
      have hout : Holds (spotPids (setDsq d q c (l₁ ++ l₂)) locals global onCpu)
          (Function.update place t.pid none) := by
        refine Holds.take (i := .queue q c) hh ?_ fun j hj => ?_
        · show (pids (d q c)).Perm (t.pid :: pids (setDsq d q c (l₁ ++ l₂) q c))
          rw [setDsq_self, takes, pids, pids, List.map_append, List.map_cons, List.map_append]
          exact List.perm_middle
        · cases j with
          | global => rfl
          | loc c' => rfl
          | queue q' c' =>
              have hne : (q', c') ≠ (q, c) := fun heq => hj (by rw [(Prod.mk.inj heq).1,
                (Prod.mk.inj heq).2])
              exact congrArg pids (setDsq_other hne)
          | running c' => rfl
      have hin : Holds (spotPids (setDsq d q c (l₁ ++ l₂))
            (Function.update locals cpu (locals cpu ++ [t.pid])) global onCpu)
          (Function.update place t.pid (some (.loc cpu))) := by
        have hidem : Function.update (Function.update place t.pid none) t.pid (some (.loc cpu))
            = Function.update place t.pid (some (.loc cpu)) := Function.update_idem ..
        rw [← hidem]
        refine Holds.put (i := .loc cpu) hout (Function.update_self ..) ?_ fun j hj => ?_
        · show (Function.update locals cpu (locals cpu ++ [t.pid]) cpu).Perm (t.pid :: locals cpu)
          rw [Function.update_self]
          exact List.perm_append_singleton _ _
        · cases j with
          | global => rfl
          | loc c' => exact Function.update_of_ne (fun heq => hj (by rw [heq])) ..
          | queue q' c' => rfl
          | running c' => rfl
      have hlast := ih hin
      rw [Function.update_idem, Function.update_self, List.append_assoc] at hlast
      have hplace : (fun pid => if pid ∈ new.map (fun x => x.2.pid) then some (Spot.loc cpu)
            else Function.update place t.pid (some (.loc cpu)) pid)
          = fun pid => if pid ∈ (((q, c), t) :: new).map (fun x => x.2.pid)
            then some (Spot.loc cpu) else place pid := by
        funext pid
        rw [List.map_cons]
        by_cases hpid : pid = t.pid
        · subst hpid
          rw [Function.update_self, ite_self, if_pos List.mem_cons_self]
        · rw [Function.update_of_ne hpid]
          exact if_congr (List.mem_cons.trans (or_iff_right hpid)).symm rfl rfl
      rw [hplace] at hlast
      exact hlast

/-- **An enqueue that inserts nothing** has reported why. -/
theorem mlfqEnqueue_refuses {m : Machine} {p : TaskStruct} {tctx alloc : Option TaskCtx}
    {flags : EnqFlags} {now : U64} (h : (mlfqEnqueue m p tctx alloc flags now).insert = none) :
    ∃ e ∈ enqueueErrors p, (mlfqEnqueue m p tctx alloc flags now).error = some e := by
  rcases mlfqEnqueue_exits m p tctx alloc flags now with
    ⟨-, ⟨e, he, herror, -⟩, -⟩ | ⟨t, -, -, hexit⟩
  · exact ⟨e, he, herror⟩
  · rcases hexit.placed (fun hsched => settledTask_schedIdle hsched m flags t now) tctx alloc with
      ⟨-, e, he, herror, -⟩ | ⟨i, t', hinsert, -, -, -⟩
    · exact ⟨e, he, herror⟩
    · rw [h] at hinsert
      cases hinsert

/-! ## One place for every task -/

theorem DsqInsert.spot_ne_running (i : DsqInsert) (cpu : Int) (c : Nat) :
    i.spot cpu ≠ .running c := by
  unfold DsqInsert.spot
  cases i.dsq <;> nofun

/-- The event is an enqueue of the task that reported an error. -/
def QueueEvent.Refuses (pid : Nat) : QueueEvent → Prop
  | .enqueue m p tctx alloc flags now _ =>
      p.pid = pid ∧ ∃ e ∈ enqueueErrors p, (mlfqEnqueue m p tctx alloc flags now).error = some e
  | _ => False

namespace QueueState

theorem place_of_handed {s : QueueState} {pid : Nat} (h : s.task pid = .handed) :
    s.place pid = none := by
  rw [place, h]
  rfl

theorem mem_of_found {s : QueueState} (hc : s.Consistent) {pid : Nat} {spot : Spot}
    (h : s.task pid = .found spot) : pid ∈ s.contents spot := by
  refine (hc.mem spot pid).mpr ?_
  rw [place, h]
  rfl

/-- A task that is nowhere stays nowhere. -/
theorem Consistent.retask {s : QueueState} (h : s.Consistent) {pid : Nat} {w : Whereabouts}
    (hpid : s.place pid = none) (hw : w.spot = none) :
    Consistent { s with task := Function.update s.task pid w } := by
  have hplace : ({ s with task := Function.update s.task pid w } : QueueState).place = s.place := by
    funext a
    rw [place, congrFun (place_update s pid w) a, hw]
    by_cases ha : a = pid
    · rw [ha, Function.update_self, hpid]
    · rw [Function.update_of_ne ha]
  rw [Consistent, hplace]
  exact h

theorem Consistent.moved {s : QueueState} (h : s.Consistent) {cpu : Nat} {r : DispatchState}
    {new : List ((Queue × Nat) × DsqTask)} (hloc : r.loc = new)
    (hmoves : DsqMoves s.dsqs new r.dsqs) : (s.moved cpu r).Consistent := by
  have hholds := hmoves.holds cpu h
  rw [← hloc] at hholds
  have hplace : (s.moved cpu r).place = fun pid =>
      if pid ∈ r.loc.map (fun x => x.2.pid) then some (.loc cpu) else s.place pid := by
    funext pid
    rw [place]
    show (if pid ∈ r.loc.map (fun x => x.2.pid) then _ else _ : Whereabouts).spot = _
    split
    · rfl
    · rfl
  rw [Consistent, hplace]
  exact hholds

end QueueState

theorem afterwards_spot (runnable : Bool) : (afterwards runnable).spot = none := by
  cases runnable <;> rfl

/-- **A step keeps every task in one place.** -/
theorem stepQueues_consistent {s s' : QueueState} {e : QueueEvent} (h : stepQueues s e = some s')
    (hc : s.Consistent) : s'.Consistent := by
  cases e with
  | wake pid =>
      simp only [stepQueues, Option.ite_none_right_eq_some, Option.some.injEq] at h
      obtain ⟨hasleep, rfl⟩ := h
      exact hc.retask (by rw [QueueState.place, hasleep]; rfl) rfl
  | select m p tctx prevCpu sync now pos =>
      simp only [stepQueues, Option.ite_none_right_eq_some] at h
      obtain ⟨hhanded, h⟩ := h
      split at h
      · cases h
        exact hc
      · rename_i i _
        cases h
        exact hc.insert pos (QueueState.place_of_handed hhanded) fun c hrun =>
          absurd hrun (i.spot_ne_running _ c)
  | enqueue m p tctx alloc flags now pos =>
      simp only [stepQueues, Option.ite_none_right_eq_some] at h
      obtain ⟨hhanded, h⟩ := h
      split at h
      · cases h
        exact hc.retask (QueueState.place_of_handed hhanded) rfl
      · rename_i i _
        cases h
        exact hc.insert pos (QueueState.place_of_handed hhanded) fun c hrun =>
          absurd hrun (i.spot_ne_running _ c)
  | dispatch env prev gauges records =>
      cases h
      obtain ⟨new, hloc, hmoves⟩ := mlfqDispatch_movesTo env prev
        { dsqs := s.dsqs, gauges := gauges, records := records }
      rw [List.nil_append] at hloc
      exact hc.moved hloc hmoves
  | consume cpu pid =>
      simp only [stepQueues, Option.ite_none_right_eq_some, Option.some.injEq] at h
      obtain ⟨hin, rfl⟩ := h
      have hout : (s.remove .global pid .handed).Consistent := hc.remove hin rfl
      exact hout.insert _
        (QueueState.place_of_handed (Function.update_self ..)) nofun
  | putBack cpu pid pos =>
      simp only [stepQueues, Option.ite_none_right_eq_some, Option.some.injEq] at h
      obtain ⟨hhanded, rfl⟩ := h
      exact hc.insert pos (QueueState.place_of_handed hhanded) nofun
  | pick cpu =>
      simp only [stepQueues] at h
      split at h
      · rename_i pid rest honCpu hlocal
        cases h
        have hin : pid ∈ s.contents (.loc cpu) := by
          show pid ∈ s.locals cpu
          rw [hlocal]
          exact List.mem_cons_self
        refine (hc.remove hin rfl).insert 0
          (QueueState.place_of_handed (Function.update_self ..)) fun c hrun => ?_
        cases hrun
        exact honCpu
      · cases h
  | stop cpu runnable =>
      simp only [stepQueues] at h
      split at h
      · cases h
      · rename_i pid honCpu
        cases h
        exact hc.remove (Option.mem_toList.mpr honCpu) (afterwards_spot runnable)
  | dequeue pid runnable =>
      simp only [stepQueues] at h
      split at h
      · cases h
      · rename_i spot _ hfound
        cases h
        exact hc.remove (QueueState.mem_of_found hc hfound) (afterwards_spot runnable)
      · cases h

theorem refused_of_update {f : Nat → Whereabouts} {pid a : Nat} {w : Whereabouts}
    (h : Function.update f pid w a = .refused) (hw : w ≠ .refused) : f a = .refused := by
  by_cases ha : a = pid
  · rw [ha, Function.update_self] at h
    exact absurd h hw
  · rw [Function.update_of_ne ha] at h
    exact h

namespace QueueState

theorem refused_of_insert {s : QueueState} {spot : Spot} {t : DsqTask} {pos a : Nat}
    (h : (s.insert spot t pos).task a = .refused) : s.task a = .refused := by
  rw [insert_task] at h
  exact refused_of_update h nofun

theorem refused_of_remove {s : QueueState} {spot : Spot} {pid a : Nat} {next : Whereabouts}
    (h : (s.remove spot pid next).task a = .refused) (hnext : next ≠ .refused) :
    s.task a = .refused := by
  rw [remove_task] at h
  exact refused_of_update h hnext

end QueueState

theorem afterwards_ne_refused (runnable : Bool) : afterwards runnable ≠ .refused := by
  cases runnable <;> nofun

/-- **A task is refused by the step that reported it.** -/
theorem stepQueues_refused {s s' : QueueState} {e : QueueEvent} (h : stepQueues s e = some s')
    {a : Nat} (hrefused : s'.task a = .refused) : s.task a = .refused ∨ e.Refuses a := by
  cases e with
  | wake pid =>
      simp only [stepQueues, Option.ite_none_right_eq_some, Option.some.injEq] at h
      obtain ⟨-, rfl⟩ := h
      exact .inl (refused_of_update hrefused nofun)
  | select m p tctx prevCpu sync now pos =>
      simp only [stepQueues, Option.ite_none_right_eq_some] at h
      obtain ⟨-, h⟩ := h
      split at h
      · cases h
        exact .inl hrefused
      · cases h
        exact .inl (QueueState.refused_of_insert hrefused)
  | enqueue m p tctx alloc flags now pos =>
      simp only [stepQueues, Option.ite_none_right_eq_some] at h
      obtain ⟨-, h⟩ := h
      split at h
      · rename_i hnone
        cases h
        by_cases ha : a = p.pid
        · exact .inr ⟨ha.symm, mlfqEnqueue_refuses hnone⟩
        · left
          rw [← hrefused]
          exact (Function.update_of_ne ha ..).symm
      · cases h
        exact .inl (QueueState.refused_of_insert hrefused)
  | dispatch env prev gauges records =>
      cases h
      left
      simp only [QueueState.moved] at hrefused
      split at hrefused
      · cases hrefused
      · exact hrefused
  | consume cpu pid =>
      simp only [stepQueues, Option.ite_none_right_eq_some, Option.some.injEq] at h
      obtain ⟨-, rfl⟩ := h
      exact .inl (QueueState.refused_of_remove (QueueState.refused_of_insert hrefused) nofun)
  | putBack cpu pid pos =>
      simp only [stepQueues, Option.ite_none_right_eq_some, Option.some.injEq] at h
      obtain ⟨-, rfl⟩ := h
      exact .inl (QueueState.refused_of_insert hrefused)
  | pick cpu =>
      simp only [stepQueues] at h
      split at h
      · cases h
        exact .inl (QueueState.refused_of_remove (QueueState.refused_of_insert hrefused) nofun)
      · cases h
  | stop cpu runnable =>
      simp only [stepQueues] at h
      split at h
      · cases h
      · cases h
        exact .inl (QueueState.refused_of_remove hrefused (afterwards_ne_refused runnable))
  | dequeue pid runnable =>
      simp only [stepQueues] at h
      split at h
      · cases h
      · cases h
        exact .inl (QueueState.refused_of_remove hrefused (afterwards_ne_refused runnable))
      · cases h

/-! ## A run -/

theorem QueueRun.consistent {tr : List QueueEntry} {s : QueueState} (h : QueueRun tr s) :
    s.Consistent := by
  induction h with
  | start h =>
      subst h
      refine ⟨fun spot => ?_, fun spot pid => ?_⟩
      · cases spot <;> exact List.nodup_nil
      · cases spot <;> exact iff_of_false List.not_mem_nil nofun
  | snoc _ hstep ih => exact stepQueues_consistent hstep ih

theorem QueueRun.refused {tr : List QueueEntry} {s : QueueState} (h : QueueRun tr s) {a : Nat}
    (hrefused : s.task a = .refused) : ∃ x ∈ tr, x.event.Refuses a := by
  induction h with
  | start h =>
      subst h
      cases hrefused
  | @snoc tr s s' e hrun hstep ih =>
      rcases stepQueues_refused hstep hrefused with hbefore | hnow
      · obtain ⟨x, hx, hrefuses⟩ := ih hbefore
        exact ⟨x, List.mem_cons_of_mem _ hx, hrefuses⟩
      · exact ⟨_, List.mem_cons_self, hnow⟩

theorem Whereabouts.spot_eq_some {w : Whereabouts} {spot : Spot} :
    w.spot = some spot ↔ w = .found spot := by
  cases w with
  | found spot' => simp [Whereabouts.spot]
  | asleep => exact iff_of_false nofun nofun
  | handed => exact iff_of_false nofun nofun
  | refused => exact iff_of_false nofun nofun

/-- One slot for each of Q1, Q2 and Q3 of two CPUs. -/
def narrowMachine : Machine :=
  Machine.zeroed { q1Quota := 1, q2Quota := 1, dispatchMaxBatch := 3 } 2

def narrowEnv : DispatchEnv where
  machine := narrowMachine
  llcCpus := fun _ => {}
  cpu := 0
  runs := fun _ _ => true

/-- The enqueue of a task of CPU 0 at a position of its DSQ. -/
def enqueueOnZero (pid pos : Nat) : QueueEvent :=
  .enqueue narrowMachine { pid := pid, cpu := 0, cpus := fun c => decide (c < 2) } (some {}) none {}
    9 pos

/-- The state an event leads to. -/
def QueueState.next (s : QueueState) (e : QueueEvent) : QueueState := (stepQueues s e).getD s

theorem QueueRun.next {tr : List QueueEntry} {s : QueueState} (h : QueueRun tr s) (e : QueueEvent)
    (he : (stepQueues s e).isSome = true) : QueueRun (⟨s, e, s.next e⟩ :: tr) (s.next e) := by
  obtain ⟨s', hs'⟩ := Option.isSome_iff_exists.mp he
  have hnext : s.next e = s' := by rw [QueueState.next, hs', Option.getD_some]
  rw [hnext]
  exact h.snoc hs'

/-- Two tasks wake up on CPU 0, the second behind the first. -/
def twoWaiting : QueueState :=
  ((({} : QueueState).next (.wake 2)).next (enqueueOnZero 2 0)).next (.wake 1)

theorem twoWaiting_run : ∃ before, QueueRun before twoWaiting
    ∧ before.map Entry.event = [.wake 1, enqueueOnZero 2 0, .wake 2] := by
  have hstart : QueueRun [] {} := .start rfl
  have hsecond := QueueRun.next (QueueRun.next hstart (.wake 2) rfl) (enqueueOnZero 2 0)
    (by decide +kernel)
  exact ⟨_, QueueRun.next hsecond (.wake 1) (by decide +kernel), rfl⟩

/-- **No task is lost or doubled.** In every run, whatever the order of
the callbacks of all the CPUs, a task is in the one list it was last put
into and in that list once; a task that was handed to an enqueue is
dropped only by an enqueue that reported an error. -/
theorem queueRun_places {tr : List QueueEntry} {s : QueueState} (h : QueueRun tr s) :
    (∀ spot, (s.contents spot).Nodup)
    ∧ (∀ spot pid, pid ∈ s.contents spot ↔ s.task pid = .found spot)
    ∧ ∀ pid, s.task pid = .refused → ∃ x ∈ tr, x.event.Refuses pid := by
  have hc := h.consistent
  refine ⟨hc.nodup, fun spot pid => ?_, fun pid => h.refused⟩
  rw [hc.mem spot pid, QueueState.place, Whereabouts.spot_eq_some]

/-- The dispatch call of CPU 0, one slot a queue. -/
def dispatchZero : QueueEvent := .dispatch narrowEnv none {} fun _ => none

/-- The dispatch call of CPU 1, which has nothing of its own. -/
def stealOne : QueueEvent :=
  .dispatch { narrowEnv with machine := { narrowMachine.seed with cpu := 1 }, cpu := 1 } none {}
    fun _ => none

/-- Three tasks wait on CPU 0, which dispatches and runs the first; CPU 1
steals the second and runs it, and the first is stopped by its slice. -/
def stolenTurns : List QueueEvent :=
  [.wake 1, .wake 2, .wake 3, enqueueOnZero 2 0, enqueueOnZero 1 1, enqueueOnZero 3 2,
    dispatchZero, .pick 0, stealOne, .pick 1, .stop 0 true]

/-- The stolen task runs, the last one still waits, and the stopped one is
handed out and in no list. -/
theorem queueRun_places_waiting :
    ∃ tr s, QueueRun tr s ∧ s.contents (.running 1) = [1] ∧ s.contents (.queue .q2 0) = [3]
      ∧ s.task 2 = .handed ∧ (∀ spot, 2 ∉ s.contents spot) ∧ s.task 3 = .found (.queue .q2 0) := by
  obtain ⟨tr, s, hrun, htest⟩ : ∃ tr s, QueueRun tr s ∧ decide (s.contents (.running 1) = [1]
      ∧ s.contents (.queue .q2 0) = [3] ∧ s.task 2 = .handed) = true :=
    @exec_reaches _ _ stepQueues (fun s => s = {}) {} rfl stolenTurns
      (fun _ s => decide (s.contents (.running 1) = [1] ∧ s.contents (.queue .q2 0) = [3]
        ∧ s.task 2 = .handed)) (by decide +kernel)
  obtain ⟨hruns, hwaits, hhanded⟩ := of_decide_eq_true htest
  have hplaces := (queueRun_places hrun).2.1
  refine ⟨tr, s, hrun, hruns, hwaits, hhanded, fun spot hmem => ?_, ?_⟩
  · have hfound := (hplaces spot 2).mp hmem
    rw [hhanded] at hfound
    cases hfound
  · apply (hplaces (.queue .q2 0) 3).mp
    rw [hwaits]
    exact List.mem_singleton.mpr rfl

/-! ## A task that waits -/

/-- The event is a dispatch call of the CPU. -/
def QueueEvent.dispatchesOn (c : Nat) : QueueEvent → Bool
  | .dispatch env _ _ _ => decide (env.cpu = c)
  | _ => false

/-- The event inserts into the DSQ in front of the task. -/
def QueueEvent.overtakes (q : Queue) (c a : Nat) (s : QueueState) : QueueEvent → Bool
  | .enqueue m p tctx alloc flags now pos =>
      (mlfqEnqueue m p tctx alloc flags now).insert.any fun i =>
        decide (i.spot p.cpu = .queue q c ∧ pos ≤ ahead DsqTask.pid a (s.dsqs q c))
  | _ => false

/-- A dispatch call of the CPU has at least `share` slots for the queue
and the task can run there. -/
def QueueEvent.Serves (q : Queue) (c a share : Nat) : QueueEvent → Prop
  | .dispatch env _ _ _ => env.cpu = c → env.machine.nrCpuIds ≠ 0 ∧ env.machine.QuotasFit
      ∧ RunsHere env a ∧ share ≤ ownShare env.machine.rod q
  | _ => True

namespace QueueState

theorem insert_dsqs_other {s : QueueState} {spot : Spot} {q : Queue} {c : Nat}
    (h : spot ≠ .queue q c) (t : DsqTask) (pos : Nat) :
    (s.insert spot t pos).dsqs q c = s.dsqs q c := by
  cases spot with
  | global => rfl
  | loc c' => rfl
  | running c' => rfl
  | queue q' c' =>
      exact setDsq_other fun heq => h (by rw [(Prod.mk.inj heq).1, (Prod.mk.inj heq).2])

theorem insert_dsqs_self (s : QueueState) (q : Queue) (c : Nat) (t : DsqTask) (pos : Nat) :
    (s.insert (.queue q c) t pos).dsqs q c = putAt pos t (s.dsqs q c) := setDsq_self ..

theorem remove_dsqs_other (s : QueueState) {spot : Spot} {q : Queue} {c : Nat}
    (h : spot ≠ .queue q c) (pid : Nat) (next : Whereabouts) :
    (s.remove spot pid next).dsqs q c = s.dsqs q c := by
  cases spot with
  | global => rfl
  | loc c' => rfl
  | running c' => rfl
  | queue q' c' =>
      exact setDsq_other fun heq => h (by rw [(Prod.mk.inj heq).1, (Prod.mk.inj heq).2])

/-- A removal only brings the others forward. -/
theorem remove_ahead (s : QueueState) (spot : Spot) (pid : Nat) (next : Whereabouts) {q : Queue}
    {c a : Nat} (hnodup : (pids (s.dsqs q c)).Nodup)
    (hstays : a ∈ pids ((s.remove spot pid next).dsqs q c)) :
    ahead DsqTask.pid a ((s.remove spot pid next).dsqs q c)
      ≤ ahead DsqTask.pid a (s.dsqs q c) := by
  by_cases hspot : spot = .queue q c
  · subst hspot
    have herase : (s.remove (.queue q c) pid next).dsqs q c
        = (s.dsqs q c).eraseP fun t => decide (t.pid = pid) := setDsq_self ..
    rw [herase] at hstays ⊢
    rcases List.exists_or_eq_self_of_eraseP (fun t : DsqTask => decide (t.pid = pid))
      (s.dsqs q c) with hself | ⟨t, l₁, l₂, -, ht, hl, hrest⟩
    · rw [hself]
    · rw [hrest] at hstays ⊢
      rw [hl] at hnodup ⊢
      rw [pids, List.map_append, List.map_cons, List.nodup_middle] at hnodup
      refine (ahead_remove DsqTask.pid fun heq => ?_).1
      rw [heq, ← List.map_append] at hnodup
      exact (List.nodup_cons.mp hnodup).1 hstays
  · rw [s.remove_dsqs_other hspot]

end QueueState

/-- **A step and the place of a waiting task**: it comes forward by the
share at a dispatch call of its CPU, and is held back by one at an insert
in front. -/
theorem stepQueues_ahead {s s' : QueueState} {e : QueueEvent} (h : stepQueues s e = some s')
    (hc : s.Consistent) {q : Queue} {c a share : Nat} (hserves : e.Serves q c a share)
    (hbefore : a ∈ pids (s.dsqs q c)) (hstays : a ∈ pids (s'.dsqs q c)) :
    (if e.dispatchesOn c then share else 0) + ahead DsqTask.pid a (s'.dsqs q c)
      ≤ ahead DsqTask.pid a (s.dsqs q c) + (if e.overtakes q c a s then 1 else 0) := by
  have hnodup : (pids (s.dsqs q c)).Nodup := hc.nodup (.queue q c)
  have hplace : s.task a = .found (.queue q c) :=
    Whereabouts.spot_eq_some.mp ((hc.mem (.queue q c) a).mp hbefore)
  cases e with
  | wake pid =>
      simp only [stepQueues, Option.ite_none_right_eq_some, Option.some.injEq] at h
      obtain ⟨-, rfl⟩ := h
      simp [QueueEvent.dispatchesOn]
  | select m p tctx prevCpu sync now pos =>
      simp only [stepQueues, Option.ite_none_right_eq_some] at h
      obtain ⟨-, h⟩ := h
      simp only [QueueEvent.dispatchesOn, QueueEvent.overtakes, Bool.false_eq_true, if_false,
        Nat.zero_add, Nat.add_zero]
      cases hinsert : (mlfqSelectCpu m p tctx prevCpu sync now).insert with
      | none =>
          rw [hinsert] at h
          cases h
          exact Nat.le_refl _
      | some i =>
          rw [hinsert] at h
          cases h
          have hspot : i.spot (mlfqSelectCpu m p tctx prevCpu sync now).cpu ≠ .queue q c := by
            unfold DsqInsert.spot
            rw [mlfqSelectCpu_insert hinsert]
            intro hloc
            cases hloc
          rw [QueueState.insert_dsqs_other hspot]
  | enqueue m p tctx alloc flags now pos =>
      simp only [stepQueues, Option.ite_none_right_eq_some] at h
      obtain ⟨hhanded, h⟩ := h
      have hne : p.pid ≠ a := by
        intro heq
        rw [heq, hplace] at hhanded
        cases hhanded
      rw [if_neg (by exact Bool.false_ne_true), Nat.zero_add]
      cases hinsert : (mlfqEnqueue m p tctx alloc flags now).insert with
      | none =>
          rw [hinsert] at h
          cases h
          exact Nat.le_add_right _ _
      | some i =>
          rw [hinsert] at h
          cases h
          have hover : QueueEvent.overtakes q c a s (.enqueue m p tctx alloc flags now pos)
              = decide (i.spot p.cpu = .queue q c
                ∧ pos ≤ ahead DsqTask.pid a (s.dsqs q c)) := by
            rw [QueueEvent.overtakes, hinsert, Option.any_some]
          rw [hover]
          by_cases hspot : i.spot p.cpu = .queue q c
          · rw [hspot, QueueState.insert_dsqs_self, ahead_putAt DsqTask.pid hne hbefore]
            simp only [true_and, decide_eq_true_eq, Nat.le_refl]
          · rw [QueueState.insert_dsqs_other hspot]
            exact Nat.le_add_right _ _
  | dispatch env prev gauges records =>
      cases h
      simp only [QueueEvent.dispatchesOn, QueueEvent.overtakes, decide_eq_true_eq,
        Bool.false_eq_true, if_false, Nat.add_zero]
      by_cases hcpu : env.cpu = c
      · subst hcpu
        obtain ⟨hnr, hfit, hruns, hshare⟩ := hserves rfl
        have hahead := mlfqDispatch_ahead hnr hfit hruns prev
          (s := { dsqs := s.dsqs, gauges := gauges, records := records }) hnodup hstays
        rw [if_pos rfl]
        simp only [QueueState.moved] at hahead ⊢
        omega
      · obtain ⟨new, -, hmoves⟩ := mlfqDispatch_movesTo env prev
          { dsqs := s.dsqs, gauges := gauges, records := records }
        rw [if_neg hcpu, Nat.zero_add]
        exact hmoves.ahead_le hnodup hstays
  | consume cpu pid =>
      simp only [stepQueues, Option.ite_none_right_eq_some, Option.some.injEq] at h
      obtain ⟨-, rfl⟩ := h
      simp only [QueueEvent.dispatchesOn, QueueEvent.overtakes, Bool.false_eq_true, if_false,
        Nat.zero_add, Nat.add_zero]
      exact s.remove_ahead .global pid .handed hnodup hstays
  | putBack cpu pid pos =>
      simp only [stepQueues, Option.ite_none_right_eq_some, Option.some.injEq] at h
      obtain ⟨-, rfl⟩ := h
      simp [QueueEvent.dispatchesOn, QueueEvent.overtakes, QueueState.insert]
  | pick cpu =>
      simp only [stepQueues] at h
      split at h
      · rename_i pid rest _ _
        cases h
        simp only [QueueEvent.dispatchesOn, QueueEvent.overtakes, Bool.false_eq_true, if_false,
          Nat.zero_add, Nat.add_zero]
        exact s.remove_ahead (.loc cpu) pid .handed hnodup hstays
      · cases h
  | stop cpu runnable =>
      simp only [stepQueues] at h
      split at h
      · cases h
      · rename_i pid _
        cases h
        simp only [QueueEvent.dispatchesOn, QueueEvent.overtakes, Bool.false_eq_true, if_false,
          Nat.zero_add, Nat.add_zero]
        exact s.remove_ahead (.running cpu) pid _ hnodup hstays
  | dequeue pid runnable =>
      simp only [stepQueues] at h
      split at h
      · cases h
      · rename_i spot _ _
        cases h
        simp only [QueueEvent.dispatchesOn, QueueEvent.overtakes, Bool.false_eq_true, if_false,
          Nat.zero_add, Nat.add_zero]
        exact s.remove_ahead spot pid _ hnodup hstays
      · cases h

/-- **A waiting task is served.** While it stays in the DSQ of its CPU,
whatever the order of the callbacks of all the CPUs, each dispatch call
of the CPU brings the task forward by the share of its queue, and only an
insert in front holds it back: it waits for no more dispatch calls than
those that were in front of it or went in front of it since. -/
theorem queueRun_served {mid before : List QueueEntry} {x : QueueEntry} {s : QueueState}
    (h : QueueRun (mid ++ x :: before) s) {q : Queue} {c a share : Nat}
    (hstart : a ∈ pids (x.post.dsqs q c)) (hstays : ∀ y ∈ mid, a ∈ pids (y.post.dsqs q c))
    (hserves : ∀ y ∈ mid, y.event.Serves q c a share) :
    share * mid.countP (fun y => y.event.dispatchesOn c) + ahead DsqTask.pid a (s.dsqs q c)
      ≤ ahead DsqTask.pid a (x.post.dsqs q c)
        + mid.countP fun y => y.event.overtakes q c a y.pre := by
  -- with it, that the task is in the DSQ where the run ends
  suffices hboth : a ∈ pids (s.dsqs q c) ∧
      share * mid.countP (fun y => y.event.dispatchesOn c) + ahead DsqTask.pid a (s.dsqs q c)
        ≤ ahead DsqTask.pid a (x.post.dsqs q c)
          + mid.countP fun y => y.event.overtakes q c a y.pre from hboth.2
  induction mid generalizing s with
  | nil =>
      cases h with
      | snoc hrun hstep => exact ⟨hstart, by simp⟩
  | cons y mid ih =>
      cases h with
      | @snoc tr pre s e hrun hstep =>
          obtain ⟨hin, hbound⟩ := ih hrun (fun z hz => hstays z (List.mem_cons_of_mem _ hz))
            fun z hz => hserves z (List.mem_cons_of_mem _ hz)
          have hnow := hstays _ List.mem_cons_self
          have hstep := stepQueues_ahead hstep (QueueRun.consistent hrun)
            (hserves _ List.mem_cons_self) hin hnow
          refine ⟨hnow, ?_⟩
          rw [List.countP_cons, List.countP_cons, Nat.mul_add]
          have hshare : share * (if e.dispatchesOn c = true then 1 else 0)
              = if e.dispatchesOn c = true then share else 0 := by
            split <;> omega
          rw [hshare]
          simp only at hstep hbound ⊢
          omega

/-- The second task goes in behind the first. -/
def behindEntry : QueueEntry where
  pre := twoWaiting
  event := enqueueOnZero 1 1
  post := twoWaiting.next (enqueueOnZero 1 1)

def servedEntry : QueueEntry where
  pre := behindEntry.post
  event := dispatchZero
  post := behindEntry.post.next dispatchZero

theorem served_run :
    ∃ before, QueueRun (servedEntry :: behindEntry :: before) servedEntry.post := by
  obtain ⟨before, hrun, -⟩ := twoWaiting_run
  exact ⟨before, QueueRun.next (QueueRun.next hrun (enqueueOnZero 1 1) (by decide +kernel))
    dispatchZero rfl⟩

/-- The task behind waits for one dispatch call, which takes the other. -/
theorem queueRun_served_behind :
    ∃ before, QueueRun ([servedEntry] ++ behindEntry :: before) servedEntry.post
      ∧ 1 * 1 + ahead DsqTask.pid 1 (servedEntry.post.dsqs .q2 0)
        ≤ ahead DsqTask.pid 1 (behindEntry.post.dsqs .q2 0) + 0 := by
  obtain ⟨before, hrun⟩ := served_run
  have hstays : ∀ y ∈ [servedEntry], 1 ∈ pids (y.post.dsqs .q2 0) := by
    intro y hy
    rw [List.mem_singleton.mp hy]
    decide +kernel
  have hserves : ∀ y ∈ [servedEntry], y.event.Serves .q2 0 1 1 := by
    intro y hy
    rw [List.mem_singleton.mp hy]
    exact fun _ => ⟨by decide, ⟨by decide, by decide, by decide, by decide⟩, fun _ _ _ => rfl,
      by decide⟩
  exact ⟨before, hrun, @queueRun_served [servedEntry] before behindEntry servedEntry.post hrun .q2
    0 1 1 (by decide +kernel) hstays hserves⟩

end ScxMlfq
