import ScxMlfq.Bpf.Dispatch
import ScxMlfq.Lib.Places

/-!
# Bpf — Moves

What a dispatch call does to the DSQs: a sequence of moves, each of one
task out of one queue DSQ into the local DSQ. A task that stays in the
DSQ of its CPU has seen as many of those in front of it leave as the
slots of its queue.
-/

namespace ScxMlfq

open Places

/-- The DSQs with one of them replaced. -/
def setDsq (d : Dsqs) (q : Queue) (c : Nat) (l : List DsqTask) : Dsqs :=
  Function.update d q (Function.update (d q) c l)

@[simp] theorem setDsq_self (d : Dsqs) (q : Queue) (c : Nat) (l : List DsqTask) :
    setDsq d q c l q c = l := by
  simp [setDsq]

theorem setDsq_other {d : Dsqs} {q q' : Queue} {c c' : Nat} {l : List DsqTask}
    (h : (q', c') ≠ (q, c)) : setDsq d q c l q' c' = d q' c' := by
  by_cases hq : q' = q
  · subst hq
    have hc : c' ≠ c := fun heq => h (by rw [heq])
    simp [setDsq, hc]
  · simp [setDsq, hq]

/-- The moves of a call, in order, each with the DSQ it takes from. -/
inductive DsqMoves : Dsqs → List ((Queue × Nat) × DsqTask) → Dsqs → Prop where
  | nil {d : Dsqs} : DsqMoves d [] d
  | cons {d d' : Dsqs} {q : Queue} {c : Nat} {l₁ l₂ : List DsqTask} {t : DsqTask}
      {new : List ((Queue × Nat) × DsqTask)} (takes : d q c = l₁ ++ t :: l₂)
      (rest : DsqMoves (setDsq d q c (l₁ ++ l₂)) new d') : DsqMoves d (((q, c), t) :: new) d'

theorem DsqMoves.trans {d d' d'' : Dsqs} {new new' : List ((Queue × Nat) × DsqTask)}
    (h : DsqMoves d new d') (h' : DsqMoves d' new' d'') : DsqMoves d (new ++ new') d'' := by
  induction h with
  | nil => exact h'
  | cons takes _ ih => exact .cons takes (ih h')

/-- What a state gains by moves. -/
def MovesTo (s s' : DispatchState) : Prop :=
  ∃ new, s'.loc = s.loc ++ new ∧ DsqMoves s.dsqs new s'.dsqs

theorem MovesTo.refl (s : DispatchState) : MovesTo s s := ⟨[], by simp, .nil⟩

theorem MovesTo.trans {s s' s'' : DispatchState} (h : MovesTo s s') (h' : MovesTo s' s'') :
    MovesTo s s'' := by
  obtain ⟨new, hloc, hmoves⟩ := h
  obtain ⟨new', hloc', hmoves'⟩ := h'
  exact ⟨new ++ new', by rw [hloc', hloc, List.append_assoc], hmoves.trans hmoves'⟩

/-! ## The moves of the code -/

/-- A move takes the first task the kernel lets run, or none. -/
theorem moveToLocal_cases (env : DispatchEnv) (q : Queue) (c : Nat) (s : DispatchState) :
    ((moveToLocal env q c s).1 = false
        ∧ (∀ t ∈ s.dsqs q c, env.runs s.calls t = false)
        ∧ (moveToLocal env q c s).2.dsqs = s.dsqs ∧ (moveToLocal env q c s).2.loc = s.loc)
      ∨ ∃ l₁ t l₂, s.dsqs q c = l₁ ++ t :: l₂ ∧ (∀ u ∈ l₁, env.runs s.calls u = false)
        ∧ (moveToLocal env q c s).1 = true
        ∧ (moveToLocal env q c s).2.dsqs = setDsq s.dsqs q c (l₁ ++ l₂)
        ∧ (moveToLocal env q c s).2.loc = s.loc ++ [((q, c), t)] := by
  rw [moveToLocal]
  cases hfind : (s.dsqs q c).find? (env.runs s.calls) with
  | none =>
      left
      refine ⟨rfl, fun t ht => ?_, rfl, rfl⟩
      exact Bool.not_eq_true _ ▸ List.find?_eq_none.mp hfind t ht
  | some t =>
      right
      have hmem := List.mem_of_find?_eq_some hfind
      have hruns := List.find?_some hfind
      obtain ⟨u, l₁, l₂, hfirst, hu, hl, herase⟩ := List.exists_of_eraseP hmem hruns
      have hskip : l₁.find? (env.runs s.calls) = none :=
        List.find?_eq_none.mpr fun v hv => hfirst v hv
      have htake : t = u := by
        rw [hl, List.find?_append, hskip, Option.none_or, List.find?_cons_of_pos hu] at hfind
        exact (Option.some.inj hfind).symm
      refine ⟨l₁, t, l₂, by rw [hl, htake], fun v hv => ?_, rfl, ?_, rfl⟩
      · exact Bool.not_eq_true _ ▸ hfirst v hv
      · rw [← herase]
        rfl

theorem moveToLocal_movesTo (env : DispatchEnv) (q : Queue) (c : Nat) (s : DispatchState) :
    MovesTo s (moveToLocal env q c s).2 := by
  rcases moveToLocal_cases env q c s with
    ⟨-, -, hdsqs, hloc⟩ | ⟨l₁, t, l₂, htakes, -, -, hdsqs, hloc⟩
  · exact ⟨[], by rw [hloc, List.append_nil], by rw [hdsqs]; exact .nil⟩
  · exact ⟨[((q, c), t)], hloc, .cons htakes (by rw [hdsqs]; exact .nil)⟩

theorem enterStolen_dsqs (env : DispatchEnv) (q : Queue) (best : DsqTask) (s : DispatchState) :
    (enterStolen env q best s).dsqs = s.dsqs ∧ (enterStolen env q best s).loc = s.loc := by
  rw [enterStolen]
  split
  · exact ⟨rfl, rfl⟩
  · exact ⟨rfl, rfl⟩

/-- **The slots move tasks**, own or stolen. -/
theorem dispatchSlots_movesTo (env : DispatchEnv) (q : Queue) (off slots moved : Nat)
    (s : DispatchState) : MovesTo s (dispatchSlots env q off slots moved s).2 := by
  induction slots generalizing moved s with
  | zero => exact .refl s
  | succ slots ih =>
      have hown := moveToLocal_movesTo env q env.cpu s
      rw [dispatchSlots]
      simp only
      split
      · exact hown.trans (ih _ _)
      · split
        · exact hown
        · rename_i cand best _
          have hstolen := moveToLocal_movesTo env q cand (moveToLocal env q env.cpu s).2
          obtain ⟨hdsqs, hloc⟩ := enterStolen_dsqs env q best
            (moveToLocal env q cand (moveToLocal env q env.cpu s).2).2
          split
          · refine (hown.trans hstolen).trans (MovesTo.trans ?_ (ih _ _))
            exact ⟨[], by rw [hloc, List.append_nil], by rw [hdsqs]; exact .nil⟩
          · exact (hown.trans hstolen).trans (ih _ _)

theorem dispatchQueues_movesTo (env : DispatchEnv) (s : DispatchState) :
    MovesTo s (dispatchQueues env s).state :=
  ((dispatchSlots_movesTo ..).trans (dispatchSlots_movesTo ..)).trans (dispatchSlots_movesTo ..)

/-- **A dispatch call moves tasks**, and nothing else of the DSQs. -/
theorem mlfqDispatch_movesTo (env : DispatchEnv) (prev : Option PrevTask) (s : DispatchState) :
    MovesTo s (mlfqDispatch env prev s).state := by
  rcases mlfqDispatch_cases env prev s with ⟨-, heq⟩ | ⟨-, pid, t, -, heq⟩ | ⟨-, -, heq⟩
  · rw [heq]
    exact .refl s
  · rw [heq]
    exact ⟨[], by simp, .nil⟩
  · rw [heq]
    exact dispatchQueues_movesTo _ s

/-! ## A task that stays -/

/-- The pids of a DSQ. -/
def pids (l : List DsqTask) : List Nat := l.map DsqTask.pid

/-- Moves leave sublists. -/
theorem DsqMoves.sublist {d d' : Dsqs} {new : List ((Queue × Nat) × DsqTask)}
    (h : DsqMoves d new d') (q : Queue) (c : Nat) : (d' q c).Sublist (d q c) := by
  induction h with
  | nil => exact List.Sublist.refl _
  | @cons d d' q' c' l₁ l₂ t new takes _ ih =>
      refine ih.trans ?_
      by_cases hsame : (q, c) = (q', c')
      · obtain ⟨rfl, rfl⟩ := Prod.mk.inj hsame
        rw [setDsq_self, takes]
        exact (List.Sublist.refl l₁).append (List.sublist_cons_self t l₂)
      · rw [setDsq_other hsame]

/-- **Moves only bring a task forward.** -/
theorem DsqMoves.ahead_le {d d' : Dsqs} {new : List ((Queue × Nat) × DsqTask)}
    (h : DsqMoves d new d') {q : Queue} {c a : Nat} (hnodup : (pids (d q c)).Nodup)
    (hstays : a ∈ pids (d' q c)) :
    ahead DsqTask.pid a (d' q c) ≤ ahead DsqTask.pid a (d q c) := by
  induction h with
  | nil => exact Nat.le_refl _
  | @cons d d' q' c' l₁ l₂ t new takes rest ih =>
      by_cases hsame : (q, c) = (q', c')
      · obtain ⟨rfl, rfl⟩ := Prod.mk.inj hsame
        have hin : a ∈ pids (l₁ ++ l₂) := by
          have hsub := (rest.sublist q c).map DsqTask.pid
          rw [setDsq_self] at hsub
          exact hsub.subset hstays
        rw [takes, pids, List.map_append, List.map_cons, List.nodup_middle] at hnodup
        obtain ⟨hnotin, hrest⟩ := List.nodup_cons.mp hnodup
        have hne : t.pid ≠ a := by
          intro heq
          rw [heq, ← List.map_append] at hnotin
          exact hnotin hin
        have hahead := ih (by rw [setDsq_self, pids, List.map_append]; exact hrest) hstays
        rw [setDsq_self] at hahead
        rw [takes]
        exact hahead.trans (ahead_remove DsqTask.pid hne).1
      · have hahead := ih (by rw [setDsq_other hsame]; exact hnodup) hstays
        rw [setDsq_other hsame] at hahead
        exact hahead

theorem MovesTo.ahead_le {s s' : DispatchState} (h : MovesTo s s') {q : Queue} {c a : Nat}
    (hnodup : (pids (s.dsqs q c)).Nodup) (hstays : a ∈ pids (s'.dsqs q c)) :
    ahead DsqTask.pid a (s'.dsqs q c) ≤ ahead DsqTask.pid a (s.dsqs q c) := by
  obtain ⟨new, -, hmoves⟩ := h
  exact hmoves.ahead_le hnodup hstays

theorem MovesTo.sublist {s s' : DispatchState} (h : MovesTo s s') (q : Queue) (c : Nat) :
    (s'.dsqs q c).Sublist (s.dsqs q c) := by
  obtain ⟨new, -, hmoves⟩ := h
  exact hmoves.sublist q c

/-- The kernel lets the task run here at every move. -/
def RunsHere (env : DispatchEnv) (a : Nat) : Prop := ∀ n t, t.pid = a → env.runs n t = true

/-- While the task is there, a move takes something. -/
theorem moveToLocal_took {env : DispatchEnv} {q : Queue} {s : DispatchState} {a : Nat}
    (hruns : RunsHere env a) (hin : a ∈ pids (s.dsqs q env.cpu)) :
    (moveToLocal env q env.cpu s).1 = true := by
  rcases moveToLocal_cases env q env.cpu s with ⟨-, hnone, -, -⟩ | ⟨l₁, t, l₂, -, -, htook, -, -⟩
  · obtain ⟨t, ht, hpid⟩ := List.mem_map.mp hin
    have hno := hnone t ht
    rw [hruns s.calls t hpid] at hno
    cases hno
  · exact htook

/-- **A move past a task that stays** takes one in front of it. -/
theorem moveToLocal_ahead {env : DispatchEnv} {q : Queue} {s : DispatchState} {a : Nat}
    (hruns : RunsHere env a) (hnodup : (pids (s.dsqs q env.cpu)).Nodup)
    (htook : (moveToLocal env q env.cpu s).1 = true)
    (hstays : a ∈ pids ((moveToLocal env q env.cpu s).2.dsqs q env.cpu)) :
    ahead DsqTask.pid a ((moveToLocal env q env.cpu s).2.dsqs q env.cpu) + 1
      = ahead DsqTask.pid a (s.dsqs q env.cpu) := by
  rcases moveToLocal_cases env q env.cpu s with
    ⟨hfailed, -, -, -⟩ | ⟨l₁, t, l₂, htakes, hskip, -, hdsqs, -⟩
  · rw [hfailed] at htook
    cases htook
  · rw [hdsqs, setDsq_self] at hstays ⊢
    rw [htakes] at hnodup ⊢
    rw [pids, List.map_append, List.map_cons, List.nodup_middle] at hnodup
    have hne : t.pid ≠ a := by
      intro heq
      rw [heq, ← List.map_append] at hnodup
      exact (List.nodup_cons.mp hnodup).1 hstays
    -- those in front of the one taken cannot run here
    refine (ahead_remove DsqTask.pid hne).2 fun hmem => ?_
    obtain ⟨u, hu, hpid⟩ := List.mem_map.mp hmem
    have hno := hskip u hu
    rw [hruns s.calls u hpid] at hno
    cases hno

/-- **The slots of a queue** take as many in front of a task that stays. -/
theorem dispatchSlots_ahead {env : DispatchEnv} {q : Queue} {a : Nat} (hruns : RunsHere env a)
    (off slots moved : Nat) {s : DispatchState} (hnodup : (pids (s.dsqs q env.cpu)).Nodup)
    (hstays : a ∈ pids ((dispatchSlots env q off slots moved s).2.dsqs q env.cpu)) :
    ahead DsqTask.pid a ((dispatchSlots env q off slots moved s).2.dsqs q env.cpu) + slots
      ≤ ahead DsqTask.pid a (s.dsqs q env.cpu) := by
  induction slots generalizing moved s with
  | zero => exact Nat.le_refl _
  | succ slots ih =>
      have hall := dispatchSlots_movesTo env q off (slots + 1) moved s
      have htook :=
        moveToLocal_took hruns (((hall.sublist q env.cpu).map DsqTask.pid).subset hstays)
      have hown := (moveToLocal_movesTo env q env.cpu s).sublist q env.cpu
      rw [dispatchSlots] at hstays ⊢
      simp only [htook, if_true] at hstays ⊢
      have hin := (((dispatchSlots_movesTo env q off slots (moved + 1)
        (moveToLocal env q env.cpu s).2).sublist q env.cpu).map DsqTask.pid).subset hstays
      have hahead := moveToLocal_ahead hruns hnodup htook hin
      have hrest := ih (moved + 1) (hnodup.sublist (hown.map DsqTask.pid)) hstays
      omega

/-- The slots a call is sure to have for a queue. -/
def ownShare (rod : Rodata) : Queue → Nat
  | .q1 => rod.q1Quota.toNat
  | .q2 => rod.q2Quota.toNat
  | .q3 => rod.dispatchMaxBatch.toNat - rod.q1Quota.toNat - rod.q2Quota.toNat

/-- The quotas the machine dispatches with. -/
def Machine.QuotasFit (m : Machine) : Prop :=
  ScxMlfq.QuotasFit m.rod.q1Quota m.rod.q2Quota m.rod.dispatchMaxBatch

theorem Machine.QuotasFit.ownShare_pos {m : Machine} (h : m.QuotasFit) (q : Queue) :
    1 ≤ ownShare m.rod q := by
  have hshare := h.share
  cases q with
  | q1 => exact h.q1
  | q2 => exact h.q2
  | q3 => show 1 ≤ _ - _ - _; omega

/-- A loop of another queue leaves the DSQs of this one alone. -/
theorem mlfqDispatchQueue_other (env : DispatchEnv) {q q' : Queue} (hne : q' ≠ q) (quota : U32)
    (s : DispatchState) : (mlfqDispatchQueue env q quota s).2.dsqs q' = s.dsqs q' :=
  (mlfqDispatchQueue_moved env q quota s).2.others q' hne

theorem dispatchQueues_ahead {env : DispatchEnv} (hfit : env.machine.QuotasFit) {q : Queue}
    {a : Nat} (hruns : RunsHere env a) {s : DispatchState}
    (hnodup : (pids (s.dsqs q env.cpu)).Nodup)
    (hstays : a ∈ pids ((dispatchQueues env s).state.dsqs q env.cpu)) :
    ahead DsqTask.pid a ((dispatchQueues env s).state.dsqs q env.cpu)
        + ownShare env.machine.rod q
      ≤ ahead DsqTask.pid a (s.dsqs q env.cpu) := by
  have hquota := (dispatchQueues_served (Nat.le_of_lt hfit.share) s).q3Quota
  have hq1 := (dispatchQueues_served (Nat.le_of_lt hfit.share) s).q1
  have hq2 := (dispatchQueues_served (Nat.le_of_lt hfit.share) s).q2
  simp only [dispatchQueues] at hstays hquota hq1 hq2 ⊢
  generalize hr₁ : mlfqDispatchQueue env .q1 env.machine.rod.q1Quota s = r₁ at *
  generalize hr₂ : mlfqDispatchQueue env .q2 env.machine.rod.q2Quota r₁.2 = r₂ at *
  have hother₁ : ∀ q', q' ≠ .q1 → r₁.2.dsqs q' = s.dsqs q' := fun q' hne => by
    rw [← hr₁]
    exact mlfqDispatchQueue_other env hne _ _
  have hother₂ : ∀ q', q' ≠ .q2 → r₂.2.dsqs q' = r₁.2.dsqs q' := fun q' hne => by
    rw [← hr₂]
    exact mlfqDispatchQueue_other env hne _ _
  cases q with
  | q1 =>
      rw [mlfqDispatchQueue_other env (by decide), hother₂ .q1 (by decide)] at hstays ⊢
      rw [← hr₁] at hstays ⊢
      exact dispatchSlots_ahead hruns _ _ _ hnodup hstays
  | q2 =>
      rw [mlfqDispatchQueue_other env (by decide), ← hr₂] at hstays ⊢
      rw [← hother₁ .q2 (by decide)] at hnodup ⊢
      exact dispatchSlots_ahead hruns _ _ _ hnodup hstays
  | q3 =>
      rw [← hother₁ .q3 (by decide), ← hother₂ .q3 (by decide)] at hnodup ⊢
      have hslots := dispatchSlots_ahead hruns _ _ _ hnodup hstays
      rw [mlfqDispatchQueue]
      have hshare : ownShare env.machine.rod .q3 ≤ _ := show
        env.machine.rod.dispatchMaxBatch.toNat - env.machine.rod.q1Quota.toNat
          - env.machine.rod.q2Quota.toNat ≤ (env.machine.rod.dispatchMaxBatch
            - BitVec.ofNat 32 r₁.1 - BitVec.ofNat 32 r₂.1).toNat by omega
      omega

/-- **A task that stays in the DSQ of its CPU** through a dispatch call
has come forward by the share of its queue: while it waits there the
outgoing task is not kept. -/
theorem mlfqDispatch_ahead {env : DispatchEnv} (hnr : env.machine.nrCpuIds ≠ 0)
    (hfit : env.machine.QuotasFit) {q : Queue} {a : Nat} (hruns : RunsHere env a)
    (prev : Option PrevTask) {s : DispatchState} (hnodup : (pids (s.dsqs q env.cpu)).Nodup)
    (hstays : a ∈ pids ((mlfqDispatch env prev s).state.dsqs q env.cpu)) :
    ahead DsqTask.pid a ((mlfqDispatch env prev s).state.dsqs q env.cpu)
        + ownShare env.machine.rod q
      ≤ ahead DsqTask.pid a (s.dsqs q env.cpu) := by
  rcases mlfqDispatch_cases env prev s with ⟨hzero, -⟩ | ⟨-, pid, t, hkeeps, heq⟩ | ⟨-, -, heq⟩
  · exact absurd hzero hnr
  · rw [heq] at hstays
    have hempty : ownEmpty s.dsqs env.cpu = true := by
      unfold keeps at hkeeps
      split at hkeeps
      · cases hkeeps
      · split at hkeeps
        · rename_i hown
          exact hown.2
        · cases hkeeps
    have hnil : s.dsqs q env.cpu = [] := by
      simp only [ownEmpty, Bool.and_eq_true, List.isEmpty_iff] at hempty
      cases q with
      | q1 => exact hempty.1.1
      | q2 => exact hempty.1.2
      | q3 => exact hempty.2
    have hin : a ∈ pids (s.dsqs q env.cpu) := hstays
    rw [hnil] at hin
    cases hin
  · rw [heq] at hstays ⊢
    exact @dispatchQueues_ahead { env with machine := bumpScanOff env.machine env.cpu } hfit q a
      hruns s hnodup hstays

end ScxMlfq
