import ScxMlfq.Bpf.SelectCpu
import ScxMlfq.Daemon.Encoding
import ScxMlfq.Lib.Selection

/-!
# Bpf — Steering

The order in which step 2.5 of `mlfq_select_cpu` probes the cache
domains: the eligible domains by runnable count and id, up to the bound
on the attempts, up to the first walk that claims a CPU.
-/

namespace ScxMlfq

/-- The domains a mask excludes, `visited & (1ULL << llc)`. -/
def visitedBits (visited : U64) (llc : Nat) : Bool :=
  decide (visited &&& ((1 : U64) <<< llc) ≠ 0)

/-- The loop of step 2.5 over the mask it keeps, with the domains it
walks. -/
def steerLoop (m : Machine) (p : TaskStruct) (interactive : Bool) :
    Nat → U64 → List Nat × Pick
  | 0, _ => ([], (none, m))
  | fuel + 1, visited =>
      let llc := mlfqSteerPickLlc m.gauges.llcRunnable m.llcIdle m.rod.nrLlcs
        (wakerLlc m) (visitedBits visited)
      if llc ≥ mlfqMaxLlcs then ([], (none, m))
      else
        let r := mlfqPickIdleInBitmap m (m.llcBitmaps llc) p interactive
        match r.1 with
        | some _ => ([llc], r)
        | none =>
            let rest := steerLoop m p interactive fuel (visited ||| ((1 : U64) <<< llc))
            (llc :: rest.1, rest.2)

/-! ## The order -/

/-- The load order of the domains: by runnable count, then by id. -/
def LoadLe (runnable : Nat → U32) (a b : Nat) : Prop :=
  runnable a < runnable b ∨ (runnable a = runnable b ∧ a ≤ b)

instance (runnable : Nat → U32) : DecidableRel (LoadLe runnable) :=
  fun _ _ => inferInstanceAs (Decidable (_ ∨ _))

instance (runnable : Nat → U32) : Std.Total (LoadLe runnable) where
  total a b := by
    unfold LoadLe
    bv_omega

instance (runnable : Nat → U32) : IsTrans Nat (LoadLe runnable) where
  trans a b c hab hbc := by
    unfold LoadLe at *
    bv_omega

instance (runnable : Nat → U32) : Std.Antisymm (LoadLe runnable) where
  antisymm a b hab hba := by
    unfold LoadLe at *
    bv_omega

/-- A domain the steering may pick: populated, not the waker's, with an
idle CPU by its gauge. -/
def steerEligible (idle : Nat → U32) (nrLlcs wakerLlc : Nat) (llc : Nat) : Bool :=
  decide (llc < nrLlcs) && decide (llc ≠ wakerLlc) && decide (idle llc ≠ 0)

/-- The eligible domains in load order. -/
def steerOrder (runnable idle : Nat → U32) (nrLlcs wakerLlc : Nat) : List Nat :=
  ((List.range mlfqMaxLlcs).filter (steerEligible idle nrLlcs wakerLlc)).insertionSort
    (LoadLe runnable)

section Order
variable (runnable idle : Nat → U32) (nrLlcs wakerLlc : Nat)

theorem mem_steerOrder {llc : Nat} :
    llc ∈ steerOrder runnable idle nrLlcs wakerLlc
      ↔ llc < nrLlcs ∧ llc < mlfqMaxLlcs ∧ llc ≠ wakerLlc ∧ idle llc ≠ 0 := by
  rw [steerOrder, List.mem_insertionSort, List.mem_filter, List.mem_range, steerEligible]
  simp only [Bool.and_eq_true, decide_eq_true_eq]
  tauto

theorem steerOrder_nodup : (steerOrder runnable idle nrLlcs wakerLlc).Nodup := by
  rw [steerOrder, (List.perm_insertionSort _ _).nodup_iff]
  exact List.nodup_range.filter _

/-- The order is strict: no domain stands in it twice. -/
theorem steerOrder_sorted :
    (steerOrder runnable idle nrLlcs wakerLlc).Pairwise fun a b =>
      runnable a < runnable b ∨ (runnable a = runnable b ∧ a < b) := by
  have hsorted : (steerOrder runnable idle nrLlcs wakerLlc).Pairwise (LoadLe runnable) :=
    List.pairwise_insertionSort _ _
  refine (hsorted.and (steerOrder_nodup runnable idle nrLlcs wakerLlc)).imp ?_
  intro a b hab
  obtain ⟨hle | ⟨heq, hle⟩, hne⟩ := hab
  · exact .inl hle
  · exact .inr ⟨heq, lt_of_le_of_ne hle hne⟩

/-- The sentinel of the scan stands for no best. -/
theorem steerBetter_getD (visited : Nat → Bool) {best : Option Nat} {llc : Nat}
    (hbest : ∀ b, best = some b → b < mlfqMaxLlcs) :
    steerBetter runnable idle nrLlcs wakerLlc visited (best.getD mlfqMaxLlcs) llc
      = (Selection.improve (LoadLe runnable)
          (fun l => steerEligible idle nrLlcs wakerLlc l && !visited l) best llc).getD
            mlfqMaxLlcs := by
  -- the skips of the loop are the negated test
  have hskip : (llc ≥ nrLlcs ∨ llc = wakerLlc ∨ visited llc = true ∨ idle llc = 0)
      ↔ (steerEligible idle nrLlcs wakerLlc llc && !visited llc) = false := by
    unfold steerEligible
    cases visited llc with
    | true => simp
    | false =>
        simp
        grind
  unfold steerBetter Selection.improve
  cases hok : steerEligible idle nrLlcs wakerLlc llc && !visited llc with
  | false =>
      rw [if_pos (hskip.mpr hok)]
      simp only [hok, Bool.false_eq_true, if_false]
  | true =>
      have hcand : ¬ (llc ≥ nrLlcs ∨ llc = wakerLlc ∨ visited llc = true ∨ idle llc = 0) := by
        rw [hskip, hok]
        decide
      rw [if_neg hcand]
      simp only [hok, if_true]
      cases best with
      | none => simp
      | some b =>
          have hb := hbest b rfl
          have hnot : ¬ b ≥ mlfqMaxLlcs := by omega
          have hiff : (runnable llc < runnable b ∨ (runnable llc = runnable b ∧ llc < b))
              ↔ ¬ LoadLe runnable b llc := by
            unfold LoadLe
            bv_omega
          simp only [Option.getD_some, hnot, false_or, hiff]
          by_cases hle : LoadLe runnable b llc <;> simp [hle]

theorem foldl_steerBetter (visited : Nat → Bool) (cands : List Nat)
    (hcands : ∀ l ∈ cands, l < mlfqMaxLlcs) (best : Option Nat)
    (hbest : ∀ b, best = some b → b < mlfqMaxLlcs) :
    cands.foldl (steerBetter runnable idle nrLlcs wakerLlc visited) (best.getD mlfqMaxLlcs)
      = (cands.foldl (Selection.improve (LoadLe runnable)
          fun l => steerEligible idle nrLlcs wakerLlc l && !visited l) best).getD mlfqMaxLlcs := by
  induction cands generalizing best with
  | nil => rfl
  | cons c cands ih =>
      rw [List.foldl_cons, List.foldl_cons, steerBetter_getD _ _ _ _ _ hbest]
      refine ih (fun l hl => hcands l (List.mem_cons_of_mem _ hl)) _ ?_
      intro b hb
      unfold Selection.improve at hb
      have hc := hcands c List.mem_cons_self
      split at hb
      · cases best with
        | none =>
            cases hb
            exact hc
        | some d =>
            have hd := hbest d rfl
            simp only at hb
            split at hb
            · cases hb
              exact hd
            · cases hb
              exact hc
      · exact hbest b hb

/-- **One selection is the first domain of the order that is not
visited.** -/
theorem mlfqSteerPickLlc_eq (visited : Nat → Bool) :
    mlfqSteerPickLlc runnable idle nrLlcs wakerLlc visited
      = ((steerOrder runnable idle nrLlcs wakerLlc).find? fun l => !visited l).getD
          mlfqMaxLlcs := by
  have hscan := foldl_steerBetter runnable idle nrLlcs wakerLlc visited (List.range mlfqMaxLlcs)
    (fun l hl => List.mem_range.mp hl) none (fun b hb => by cases hb)
  rw [Selection.foldl_improve_eq_find?] at hscan
  exact hscan

end Order

/-! ## The attempts -/

/-- The order of the domains on one machine. -/
def Machine.steerOrder (m : Machine) : List Nat :=
  ScxMlfq.steerOrder m.gauges.llcRunnable m.llcIdle m.rod.nrLlcs (wakerLlc m)

/-- The walks of a list of domains, one after the other up to the first
claim. -/
def probe (m : Machine) (p : TaskStruct) (interactive : Bool) : List Nat → List Nat × Pick
  | [] => ([], (none, m))
  | llc :: rest =>
      let r := mlfqPickIdleInBitmap m (m.llcBitmaps llc) p interactive
      match r.1 with
      | some _ => ([llc], r)
      | none =>
          let later := probe m p interactive rest
          (llc :: later.1, later.2)

theorem visitedBits_eq (visited : U64) {llc : Nat} (h : llc < 64) :
    visitedBits visited llc = visited.getLsbD llc := by
  rw [Bool.eq_iff_iff, visitedBits, decide_eq_true_eq]
  exact and_mask_ne_zero_iff visited h

/-- Marking a domain sets its bit and no other. -/
theorem visitedBits_mark (visited : U64) {a llc : Nat} (ha : a < 64) (h : llc < 64) :
    visitedBits (visited ||| ((1 : U64) <<< a)) llc
      = (decide (llc = a) || visitedBits visited llc) := by
  have hmask : (1 : U64) <<< a = BitVec.twoPow 64 a := (BitVec.twoPow_eq 64 a).symm
  rw [visitedBits_eq _ h, visitedBits_eq _ h, BitVec.getLsbD_or, hmask, BitVec.getLsbD_twoPow,
    Bool.or_comm]
  by_cases hla : llc = a
  · simp [hla, ha]
  · have hal : ¬ a = llc := fun heq => hla heq.symm
    simp [hla, hal]

section Attempts
variable {m : Machine} {p : TaskStruct} {interactive : Bool} {done todo : List Nat}

theorem Machine.lt_of_mem_steerOrder {llc : Nat} (h : llc ∈ m.steerOrder) : llc < mlfqMaxLlcs :=
  ((mem_steerOrder ..).mp h).2.1

/-- The domains tried so far are the visited ones of the order. -/
def Visited (m : Machine) (visited : Nat → Bool) (done : List Nat) : Prop :=
  ∀ l ∈ m.steerOrder, visited l = decide (l ∈ done)

/-- The next selection is the head of what is left of the order. -/
theorem Visited.pick {visited : Nat → Bool} (h : Visited m visited done)
    (horder : m.steerOrder = done ++ todo) :
    mlfqSteerPickLlc m.gauges.llcRunnable m.llcIdle m.rod.nrLlcs (wakerLlc m) visited
      = todo.head?.getD mlfqMaxLlcs := by
  have hnodup : m.steerOrder.Nodup := steerOrder_nodup ..
  -- what is done is visited, and the next of the order is not
  have hdone : done.find? (fun l => !visited l) = none := by
    rw [List.find?_eq_none]
    intro l hl
    rw [h l (by rw [horder]; exact List.mem_append_left _ hl)]
    simp [hl]
  have htodo : todo.find? (fun l => !visited l) = todo.head? := by
    cases todo with
    | nil => rfl
    | cons a rest =>
        have hnot : a ∉ done := by
          intro hin
          rw [horder, List.nodup_append] at hnodup
          exact hnodup.2.2 a hin a List.mem_cons_self rfl
        have hfree : visited a = false := by
          rw [h a (by rw [horder]; simp)]
          simp [hnot]
        rw [List.find?_cons_of_pos (by rw [hfree]; rfl)]
        rfl
  rw [mlfqSteerPickLlc_eq]
  show (m.steerOrder.find? _).getD _ = _
  rw [horder, List.find?_append, hdone, htodo, Option.none_or]

theorem Visited.mark {visited visited' : Nat → Bool} {a : Nat} (h : Visited m visited done)
    (hmark : ∀ l ∈ m.steerOrder, visited' l = (decide (l = a) || visited l)) :
    Visited m visited' (done ++ [a]) := by
  intro l hl
  rw [hmark l hl, h l hl, ← Bool.decide_or]
  simp [or_comm]

/-- **The loop walks the order from its first unvisited domain on**, as
many domains as it has attempts. -/
theorem steerLoop_eq_probe (fuel : Nat) (visited : U64)
    (h : Visited m (visitedBits visited) done) (horder : m.steerOrder = done ++ todo) :
    steerLoop m p interactive fuel visited = probe m p interactive (todo.take fuel) := by
  induction fuel generalizing visited done todo with
  | zero => simp [steerLoop, probe]
  | succ fuel ih =>
      rw [steerLoop, h.pick horder]
      cases todo with
      | nil => simp [probe]
      | cons a rest =>
          have ha : a < mlfqMaxLlcs := Machine.lt_of_mem_steerOrder (by rw [horder]; simp)
          have hnot : ¬ a ≥ mlfqMaxLlcs := by omega
          have ha64 : a < 64 := Nat.lt_trans ha (by decide)
          have hnext : Visited m (visitedBits (visited ||| ((1 : U64) <<< a))) (done ++ [a]) := by
            apply h.mark
            intro l hl
            have hl64 : l < 64 :=
              Nat.lt_trans (Machine.lt_of_mem_steerOrder hl) (by decide)
            exact visitedBits_mark visited ha64 hl64
          have hrest := @ih (done ++ [a]) rest _ hnext (by rw [horder]; simp)
          simp only [List.head?_cons, Option.getD_some, hnot, if_false, List.take_succ_cons,
            probe, hrest]

/-- The loop of the model, attempt by attempt the same. -/
theorem steerFrom_eq_probe (fuel : Nat) (visited : Nat → Bool)
    (h : Visited m visited done) (horder : m.steerOrder = done ++ todo) :
    steerFrom m p interactive fuel visited = (probe m p interactive (todo.take fuel)).2 := by
  induction fuel generalizing visited done todo with
  | zero => simp [steerFrom, probe]
  | succ fuel ih =>
      rw [steerFrom, h.pick horder]
      cases todo with
      | nil => simp [probe]
      | cons a rest =>
          have ha : a < mlfqMaxLlcs := Machine.lt_of_mem_steerOrder (by rw [horder]; simp)
          have hnot : ¬ a ≥ mlfqMaxLlcs := by omega
          have hnext : Visited m (fun l => decide (l = a) || visited l) (done ++ [a]) :=
            h.mark fun _ _ => rfl
          have hrest := @ih (done ++ [a]) rest _ hnext (by rw [horder]; simp)
          simp only [List.head?_cons, Option.getD_some, hnot, if_false, List.take_succ_cons, probe]
          cases (mlfqPickIdleInBitmap m (m.llcBitmaps a) p interactive).1 with
          | none => exact hrest
          | some cpu => rfl

/-- A walk of a domain claims a CPU. -/
def WalkClaims (m : Machine) (p : TaskStruct) (interactive : Bool) (llc : Nat) : Prop :=
  ((mlfqPickIdleInBitmap m (m.llcBitmaps llc) p interactive).1).isSome = true

theorem probe_of_none {l : List Nat} (h : ∀ llc ∈ l, ¬ WalkClaims m p interactive llc) :
    probe m p interactive l = (l, (none, m)) := by
  induction l with
  | nil => rfl
  | cons a l ih =>
      have ha := h a List.mem_cons_self
      rw [WalkClaims, Option.not_isSome_iff_eq_none] at ha
      simp only [probe, ha, ih fun llc hllc => h llc (List.mem_cons_of_mem _ hllc)]

theorem probe_of_claim {before after : List Nat} {llc : Nat}
    (h : ∀ l ∈ before, ¬ WalkClaims m p interactive l) (hllc : WalkClaims m p interactive llc) :
    probe m p interactive (before ++ llc :: after)
      = (before ++ [llc], mlfqPickIdleInBitmap m (m.llcBitmaps llc) p interactive) := by
  induction before with
  | nil =>
      obtain ⟨cpu, hcpu⟩ := Option.isSome_iff_exists.mp hllc
      simp only [List.nil_append, probe, hcpu]
  | cons a before ih =>
      have ha := h a List.mem_cons_self
      rw [WalkClaims, Option.not_isSome_iff_eq_none] at ha
      have hrest := ih fun l hl => h l (List.mem_cons_of_mem _ hl)
      simp only [List.cons_append, probe, ha, hrest]

end Attempts

/-- **Steering visits the least-loaded domains in order.** The loop over
its mask is the one of the selection. -/
theorem steering_order (m : Machine) (p : TaskStruct) (interactive : Bool) :
    (∀ llc, llc ∈ m.steerOrder ↔ llc < m.rod.nrLlcs ∧ llc < mlfqMaxLlcs ∧ llc ≠ wakerLlc m
        ∧ m.llcIdle llc ≠ 0) ∧
      m.steerOrder.Pairwise (fun a b => m.gauges.llcRunnable a < m.gauges.llcRunnable b
        ∨ (m.gauges.llcRunnable a = m.gauges.llcRunnable b ∧ a < b)) ∧
      ((∀ llc ∈ m.steerOrder.take mlfqSteerLlcMax, ¬ WalkClaims m p interactive llc) →
        steerLoop m p interactive mlfqSteerLlcMax 0
          = (m.steerOrder.take mlfqSteerLlcMax, (none, m))) ∧
      (∀ before llc after, m.steerOrder.take mlfqSteerLlcMax = before ++ llc :: after →
        (∀ l ∈ before, ¬ WalkClaims m p interactive l) → WalkClaims m p interactive llc →
          steerLoop m p interactive mlfqSteerLlcMax 0
            = (before ++ [llc], mlfqPickIdleInBitmap m (m.llcBitmaps llc) p interactive)) ∧
      (steerLoop m p interactive mlfqSteerLlcMax 0).2
        = steerFrom m p interactive mlfqSteerLlcMax fun _ => false := by
  have hmask : Visited m (visitedBits 0) [] := by
    intro l hl
    have hl64 := Nat.lt_trans (Machine.lt_of_mem_steerOrder hl) (by decide : mlfqMaxLlcs < 64)
    rw [visitedBits_eq _ hl64]
    simp
  have hnone : Visited m (fun _ => false) [] := by
    intro l _
    simp
  have hloop := @steerLoop_eq_probe m p interactive [] m.steerOrder mlfqSteerLlcMax 0 hmask rfl
  have hfrom := @steerFrom_eq_probe m p interactive [] m.steerOrder mlfqSteerLlcMax _ hnone rfl
  refine ⟨fun llc => mem_steerOrder .., steerOrder_sorted .., ?_, ?_, by rw [hloop, hfrom]⟩
  · intro hno
    rw [hloop, probe_of_none hno]
  · intro before llc after htake hbefore hclaim
    rw [hloop, htake, probe_of_claim hbefore hclaim]

end ScxMlfq
