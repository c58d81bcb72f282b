import XbowPerso.ReconPlan
import XbowPerso.Theorems.ContractRate

/-!
# The plan does not see other origins

The walk over the ancestors finds exactly what is met on the way up to the first assets, so that observations of another origin, added
to a graph in which every surface observation has an asset among its ancestors, leave the plan as it is.
-/

namespace XbowPerso

namespace ReconPlan

variable {u : Unicode} {target : Origin} {graph graph' : ObservationGraph}

/-! ## What is met on the way up -/

/-- The identifiers that are met from some on, up to the first asset of each branch. -/
inductive Meets (graph : ObservationGraph) (ids : List String) : String → Prop
  | here {id : String} : id ∈ ids → Meets graph ids id
  | up {id parent : String} {o : Observation} : Meets graph ids id → graph.items.get? id = some o → isAsset o = false →
      parent ∈ o.parentIds → Meets graph ids parent

/-- An observation that is there and is no endpoint or form of another origin. -/
def Passable (u : Unicode) (target : Origin) (graph : ObservationGraph) (id : String) : Prop :=
  ∃ o, graph.items.get? id = some o ∧ (isAsset o = false → rejects u target o = false)

variable {o : Observation}

theorem rejects_asset (h : isAsset o = true) : rejects u target o = false := by
  have hkind : o.kind = "asset" := of_decide_eq_true h
  unfold rejects
  rw [hkind]
  rfl

/-- What the walk has seen is passable, its assets are linked, and what is above the others is seen or on the stack. -/
structure Walked (u : Unicode) (target : Origin) (graph : ObservationGraph) (stack seen : List String) (linked : List Observation) :
    Prop where
  passable : ∀ id ∈ seen, Passable u target graph id
  linked : ∀ o, o ∈ linked ↔ ∃ id ∈ seen, graph.items.get? id = some o ∧ isAsset o = true
  above : ∀ id ∈ seen, ∀ o, graph.items.get? id = some o → isAsset o = false → ∀ p ∈ o.parentIds, p ∈ seen ∨ p ∈ stack

variable {id : String} {stack seen : List String} {linked : List Observation}

theorem Walked.skip
    (h : Walked u target graph (id :: stack) seen linked) (hseen : id ∈ seen) : Walked u target graph stack seen linked := by
  refine ⟨h.passable, h.linked, fun x hx o ho hasset p hp => ?_⟩
  rcases h.above x hx o ho hasset p hp with hp | hp
  · exact .inl hp
  · rcases List.mem_cons.mp hp with rfl | hp
    · exact .inl hseen
    · exact .inr hp

theorem Walked.asset
    (h : Walked u target graph (id :: stack) seen linked) (ho : graph.items.get? id = some o) (hasset : isAsset o = true) :
    Walked u target graph stack (id :: seen) (o :: linked) where
  passable x hx := by
    rcases List.mem_cons.mp hx with rfl | hx
    · exact ⟨o, ho, fun hno => by rw [hasset] at hno; cases hno⟩
    · exact h.passable x hx
  linked x := by
    rw [List.mem_cons, h.linked]
    constructor
    · rintro (rfl | ⟨y, hy, hget⟩)
      · exact ⟨id, List.mem_cons_self, ho, hasset⟩
      · exact ⟨y, List.mem_cons_of_mem _ hy, hget⟩
    · rintro ⟨y, hy, hget, hx⟩
      rcases List.mem_cons.mp hy with rfl | hy
      · exact .inl (Option.some.inj (hget.symm.trans ho))
      · exact .inr ⟨y, hy, hget, hx⟩
  above x hx y hy hno p hp := by
    rcases List.mem_cons.mp hx with rfl | hx
    · rw [Option.some.inj (hy.symm.trans ho), hasset] at hno
      cases hno
    · rcases h.above x hx y hy hno p hp with hp | hp
      · exact .inl (List.mem_cons_of_mem _ hp)
      · rcases List.mem_cons.mp hp with rfl | hp
        · exact .inl List.mem_cons_self
        · exact .inr hp

theorem Walked.other
    (h : Walked u target graph (id :: stack) seen linked) (ho : graph.items.get? id = some o) (hasset : isAsset o = false)
    (hpass : rejects u target o = false) : Walked u target graph (o.parentIds.reverse ++ stack) (id :: seen) linked where
  passable x hx := by
    rcases List.mem_cons.mp hx with rfl | hx
    · exact ⟨o, ho, fun _ => hpass⟩
    · exact h.passable x hx
  linked x := by
    rw [h.linked]
    constructor
    · rintro ⟨y, hy, hget⟩
      exact ⟨y, List.mem_cons_of_mem _ hy, hget⟩
    · rintro ⟨y, hy, hget, hx⟩
      rcases List.mem_cons.mp hy with rfl | hy
      · rw [Option.some.inj (hget.symm.trans ho), hasset] at hx
        cases hx
      · exact ⟨y, hy, hget, hx⟩
  above x hx y hy hno p hp := by
    rcases List.mem_cons.mp hx with rfl | hx
    · rw [Option.some.inj (hy.symm.trans ho)] at hp
      exact .inr (List.mem_append_left _ (List.mem_reverse.mpr hp))
    · rcases h.above x hx y hy hno p hp with hp | hp
      · exact .inl (List.mem_cons_of_mem _ hp)
      · rcases List.mem_cons.mp hp with rfl | hp
        · exact .inl List.mem_cons_self
        · exact .inr (List.mem_append_right _ hp)

/-- A walk that ends has seen what was seen before and what was on the stack. -/
theorem walked_of_walk {result : List Observation}
    (h : ancestorWalk u target graph stack seen linked = some result) (hw : Walked u target graph stack seen linked) :
    ∃ final, Walked u target graph [] final result ∧ (∀ id ∈ seen, id ∈ final) ∧ ∀ id ∈ stack, id ∈ final := by
  fun_induction ancestorWalk u target graph stack seen linked with
  | case1 seen linked =>
    cases h
    exact ⟨seen, hw, fun _ h => h, fun _ h => absurd h List.not_mem_nil⟩
  | case2 seen linked id stack hseen ih =>
    obtain ⟨final, hfinal, hkeep, hstack⟩ := ih h (hw.skip hseen)
    refine ⟨final, hfinal, hkeep, fun x hx => ?_⟩
    rcases List.mem_cons.mp hx with rfl | hx
    · exact hkeep x hseen
    · exact hstack x hx
  | case3 seen linked id stack hseen hget => cases h
  | case4 seen linked id stack hseen o hget hasset ih =>
    obtain ⟨final, hfinal, hkeep, hstack⟩ := ih h (hw.asset hget hasset)
    refine ⟨final, hfinal, fun x hx => hkeep x (List.mem_cons_of_mem _ hx), fun x hx => ?_⟩
    rcases List.mem_cons.mp hx with rfl | hx
    · exact hkeep x List.mem_cons_self
    · exact hstack x hx
  | case5 seen linked id stack hseen o hget hasset hrejects => cases h
  | case6 seen linked id stack hseen o hget hasset hrejects ih =>
    obtain ⟨final, hfinal, hkeep, hstack⟩ := ih h (hw.other hget ((Bool.not_eq_true _).mp hasset) ((Bool.not_eq_true _).mp hrejects))
    refine ⟨final, hfinal, fun x hx => hkeep x (List.mem_cons_of_mem _ hx), fun x hx => ?_⟩
    rcases List.mem_cons.mp hx with rfl | hx
    · exact hkeep x List.mem_cons_self
    · exact hstack x (List.mem_append_right _ hx)

variable {ids : List String}

/-- What is met is among what a finished walk has seen. -/
theorem Walked.mem_of_meets (h : Walked u target graph [] seen linked)
    (hids : ∀ id ∈ ids, id ∈ seen) (hmeets : Meets graph ids id) : id ∈ seen := by
  induction hmeets with
  | here hmem => exact hids _ hmem
  | up _ hget hasset hp ih => exact (h.above _ ih _ hget hasset _ hp).resolve_right List.not_mem_nil

/-- A walk sees nothing but what is met, and it ends without a result only before something impassable. -/
theorem meets_of_walk (u : Unicode) (target : Origin) (seen : List String)
    (hstack : ∀ id ∈ stack, Meets graph ids id)
    (hlinked : ∀ o ∈ linked, ∃ id, Meets graph ids id ∧ graph.items.get? id = some o ∧ isAsset o = true) :
    match ancestorWalk u target graph stack seen linked with
    | some result => ∀ o ∈ result, ∃ id, Meets graph ids id ∧ graph.items.get? id = some o ∧ isAsset o = true
    | none => ∃ id, Meets graph ids id ∧ ¬ Passable u target graph id := by
  fun_induction ancestorWalk u target graph stack seen linked with
  | case1 seen linked => exact hlinked
  | case2 id stack seen linked hseen ih => exact ih (fun x hx => hstack x (List.mem_cons_of_mem _ hx)) hlinked
  | case3 id stack seen linked hseen hget =>
    refine ⟨id, hstack id List.mem_cons_self, ?_⟩
    rintro ⟨o, ho, -⟩
    rw [hget] at ho
    cases ho
  | case4 id stack seen linked hseen o hget hasset ih =>
    refine ih (fun x hx => hstack x (List.mem_cons_of_mem _ hx)) fun x hx => ?_
    rcases List.mem_cons.mp hx with rfl | hx
    · exact ⟨id, hstack id List.mem_cons_self, hget, hasset⟩
    · exact hlinked x hx
  | case5 id stack seen linked hseen o hget hasset hrejects =>
    refine ⟨id, hstack id List.mem_cons_self, ?_⟩
    rintro ⟨x, hx, hpass⟩
    cases hget.symm.trans hx
    rw [hpass ((Bool.not_eq_true _).mp hasset)] at hrejects
    cases hrejects
  | case6 id stack seen linked hseen o hget hasset hrejects ih =>
    refine ih (fun x hx => ?_) hlinked
    rcases List.mem_append.mp hx with hx | hx
    · exact .up (hstack id List.mem_cons_self) hget ((Bool.not_eq_true _).mp hasset) (List.mem_reverse.mp hx)
    · exact hstack x (List.mem_cons_of_mem _ hx)

/-! ## What counts for the target -/

/-- An asset, an endpoint or a form that is not of the origin. -/
def OtherOrigin (u : Unicode) (target : Origin) (o : Observation) : Prop :=
  (isAsset o = true ∧ compatibleAsset u target o.value = false) ∨ rejects u target o = true

/-- An observation that is there and is not of another origin. -/
def Good (u : Unicode) (target : Origin) (graph : ObservationGraph) (id : String) : Prop :=
  ∃ o, graph.items.get? id = some o ∧ ¬ OtherOrigin u target o

theorem walk_start (u : Unicode) (target : Origin) (graph : ObservationGraph) (stack : List String) :
    Walked u target graph stack [] [] where
  passable _ h := absurd h List.not_mem_nil
  linked _ := ⟨fun h => absurd h List.not_mem_nil, fun ⟨_, h, _⟩ => absurd h List.not_mem_nil⟩
  above _ h := absurd h List.not_mem_nil

/-- An asset is met. -/
def MeetsAsset (graph : ObservationGraph) (o : Observation) : Prop :=
  ∃ id asset, Meets graph o.parentIds id ∧ graph.items.get? id = some asset ∧ isAsset asset = true

/-- An observation counts when it is of the origin, and so is all that is met on the way up, which is there; and an asset is met, or
the only one is of the origin. -/
theorem isForTarget_iff : isForTarget u target graph o = true ↔ rejects u target o = false ∧
    (∀ id, Meets graph o.parentIds id → Good u target graph id) ∧
      (MeetsAsset graph o ∨ onlyAsset u target (graph.byKind .asset) = true) := by
  have hstart : ∀ id ∈ o.parentIds.reverse, Meets graph o.parentIds id := fun id h => .here (List.mem_reverse.mp h)
  have hnone : ∀ x ∈ ([] : List Observation), ∃ id, Meets graph o.parentIds id ∧ graph.items.get? id = some x ∧ isAsset x = true :=
    fun _ h => absurd h List.not_mem_nil
  have hmeets := meets_of_walk u target [] hstart hnone
  unfold isForTarget
  by_cases hown : rejects u target o = true
  · rw [if_pos hown]
    exact ⟨fun h => (by cases h), fun h => (by rw [hown] at h; cases h.1)⟩
  · rw [if_neg hown]
    cases hwalk : ancestorWalk u target graph o.parentIds.reverse [] [] with
    | none =>
      rw [hwalk] at hmeets
      obtain ⟨id, hid, hbad⟩ := hmeets
      refine ⟨fun h => (by cases h), fun h => absurd ?_ hbad⟩
      obtain ⟨x, hx, hgood⟩ := h.2.1 id hid
      exact ⟨x, hx, fun _ => (Bool.not_eq_true _).mp fun hrejects => hgood (.inr hrejects)⟩
    | some linked =>
      rw [hwalk] at hmeets
      obtain ⟨final, hfinal, -, hstack⟩ := walked_of_walk hwalk (walk_start u target graph _)
      have hall : ∀ id, Meets graph o.parentIds id → id ∈ final := fun id hid =>
        hfinal.mem_of_meets (fun x hx => hstack x (List.mem_reverse.mpr hx)) hid
      have hgood : (∀ asset ∈ linked, compatibleAsset u target asset.value = true) ↔
          ∀ id, Meets graph o.parentIds id → Good u target graph id := by
        constructor
        · intro hassets id hid
          obtain ⟨x, hx, hpass⟩ := hfinal.passable id (hall id hid)
          refine ⟨x, hx, fun hother => ?_⟩
          rcases hother with ⟨hasset, hbad⟩ | hrejects
          · rw [hassets x ((hfinal.linked x).mpr ⟨id, hall id hid, hx, hasset⟩)] at hbad
            cases hbad
          · cases hasset : isAsset x with
            | true =>
              rw [rejects_asset hasset] at hrejects
              cases hrejects
            | false =>
              rw [hpass hasset] at hrejects
              cases hrejects
        · intro hids asset hasset
          obtain ⟨id, hid, hget, hkind⟩ := hmeets asset hasset
          obtain ⟨x, hx, hnot⟩ := hids id hid
          cases hget.symm.trans hx
          exact (Bool.not_eq_false _).mp fun hbad => hnot (.inl ⟨hkind, hbad⟩)
      have hmeetsAsset : MeetsAsset graph o ↔ linked ≠ [] := by
        constructor
        · rintro ⟨id, asset, hid, hget, hasset⟩
          exact List.ne_nil_of_mem ((hfinal.linked asset).mpr ⟨id, hall id hid, hget, hasset⟩)
        · intro hne
          obtain ⟨asset, hasset⟩ := List.exists_mem_of_ne_nil _ hne
          obtain ⟨id, hid, hget, hkind⟩ := hmeets asset hasset
          exact ⟨id, asset, hid, hget, hkind⟩
      have hfalse : rejects u target o = false := (Bool.not_eq_true _).mp hown
      rw [← hgood, hmeetsAsset]
      cases linked with
      | nil => simp [hfalse]
      | cons asset rest =>
        dsimp only
        rw [List.all_eq_true]
        exact ⟨fun h => ⟨hfalse, h, .inl (List.cons_ne_nil _ _)⟩, fun h => h.2.1⟩

/-! ## Extensions with other origins -/

/-- The kinds of observations that the plan looks at. -/
def surfaceKinds : List ObservationKind := [.endpoint, .form, .technology, .waf]

inductive Ancestor (graph : ObservationGraph) (o : Observation) : Observation → Prop
  | parent {id : String} {x : Observation} : id ∈ o.parentIds → graph.items.get? id = some x → Ancestor graph o x
  | above {id : String} {x y : Observation} : Ancestor graph o y → id ∈ y.parentIds → graph.items.get? id = some x → Ancestor graph o x

/-- No parent is missing. -/
def Closed (graph : ObservationGraph) : Prop :=
  ∀ id o, graph.items.get? id = some o → ∀ p ∈ o.parentIds, ∃ x, graph.items.get? p = some x

/-- Something of another origin is met above an observation. -/
def MeetsOther (u : Unicode) (target : Origin) (graph : ObservationGraph) (o : Observation) : Prop :=
  ∃ id x, Meets graph o.parentIds id ∧ graph.items.get? id = some x ∧ OtherOrigin u target x

/-- A graph with an asset of the origin, in which each surface observation has an asset among its ancestors, and an extension of it with
observations that do not belong to the origin. An asset that is added is one of another origin itself, or, where the graph has no
missing parents, it may also be one above which another origin is met. -/
structure Isolated (u : Unicode) (target : Origin) (graph graph' : ObservationGraph) : Prop where
  asset : ∃ asset ∈ graph.byKind .asset, compatibleAsset u target asset.value = true
  linked : ∀ kind ∈ surfaceKinds, ∀ o ∈ graph.byKind kind, ∃ x, Ancestor graph o x ∧ isAsset x = true
  extended : ∀ id o, graph.items.get? id = some o → graph'.items.get? id = some o
  foreign : ∀ id o, graph'.items.get? id = some o → graph.items.get? id = none →
    OtherOrigin u target o ∨ ((isAsset o = false ∨ Closed graph) ∧ MeetsOther u target graph' o)

theorem Ancestor.meetsAsset {x : Observation} (h : Ancestor graph o x) :
    MeetsAsset graph o ∨ ∃ id, Meets graph o.parentIds id ∧ graph.items.get? id = some x := by
  induction h with
  | parent hid hget => exact .inr ⟨_, .here hid, hget⟩
  | @above id x y _ hid hget ih =>
    rcases ih with ih | ⟨idy, hmeets, hy⟩
    · exact .inl ih
    · cases hasset : isAsset y with
      | true => exact .inl ⟨idy, y, hmeets, hy, hasset⟩
      | false => exact .inr ⟨id, .up hmeets hy hasset hid, hget⟩

theorem meetsAsset_of_ancestor {x : Observation} (h : Ancestor graph o x) (hx : isAsset x = true) : MeetsAsset graph o := by
  rcases h.meetsAsset with h | ⟨id, hmeets, hget⟩
  · exact h
  · exact ⟨id, x, hmeets, hget, hx⟩

theorem Meets.trans {id' : String} (h : Meets graph ids id)
    (hget : graph.items.get? id = some o) (hasset : isAsset o = false) (h' : Meets graph o.parentIds id') : Meets graph ids id' := by
  induction h' with
  | here hmem => exact .up h hget hasset hmem
  | up _ hy hno hp ih => exact .up ih hy hno hp

namespace Isolated

variable (h : Isolated u target graph graph')

include h

theorem meets {ids : List String} {id : String} (hm : Meets graph ids id) : Meets graph' ids id := by
  induction hm with
  | here hmem => exact .here hmem
  | up _ hget hasset hp ih => exact .up ih (h.extended _ _ hget) hasset hp

/-- Above what was there, the extension has nothing new, unless it is of another origin. -/
theorem good_iff {id : String} {o : Observation} (ho : graph.items.get? id = some o) :
    (∀ x, Meets graph' o.parentIds x → Good u target graph' x) ↔ ∀ x, Meets graph o.parentIds x → Good u target graph x := by
  constructor
  · intro hgood x hx
    obtain ⟨y, hy, hnot⟩ := hgood x (h.meets hx)
    cases hold : graph.items.get? x with
    | some y' => exact ⟨y', hold, by rw [Option.some.inj ((h.extended _ _ hold).symm.trans hy)]; exact hnot⟩
    | none =>
      -- the parent was missing, and what the extension has put there is of another origin
      rcases h.foreign x y hy hold with hother | ⟨hasset | hclosed, id', z, hz, hget, hother⟩
      · exact absurd hother hnot
      · obtain ⟨z', hz', hnot'⟩ := hgood id' ((h.meets hx).trans hy hasset hz)
        cases hget.symm.trans hz'
        exact absurd hother hnot'
      · have hpresent : ∃ w, graph.items.get? x = some w := by
          cases hx with
          | here hmem => exact hclosed _ _ ho _ hmem
          | up _ hw _ hp => exact hclosed _ _ hw _ hp
        obtain ⟨w, hw⟩ := hpresent
        rw [hold] at hw
        cases hw
  · intro hgood
    have hback : ∀ x, Meets graph' o.parentIds x → Meets graph o.parentIds x := by
      intro x hx
      induction hx with
      | here hmem => exact .here hmem
      | up _ hget hasset hp ih =>
        obtain ⟨y, hy, -⟩ := hgood _ ih
        cases (h.extended _ _ hy).symm.trans hget
        exact .up ih hy hasset hp
    intro x hx
    obtain ⟨y, hy, hnot⟩ := hgood x (hback x hx)
    exact ⟨y, h.extended _ _ hy, hnot⟩

variable {kind : ObservationKind}

/-- What was there counts as before. -/
theorem isForTarget_eq (hkind : kind ∈ surfaceKinds) {o : Observation} (ho : o ∈ graph.byKind kind) :
    isForTarget u target graph' o = true ↔ isForTarget u target graph o = true := by
  obtain ⟨x, hancestor, hx⟩ := h.linked kind hkind o ho
  have hmeets := meetsAsset_of_ancestor hancestor hx
  have hmeets' : MeetsAsset graph' o := by
    obtain ⟨id, asset, hid, hget, hasset⟩ := hmeets
    exact ⟨id, asset, h.meets hid, h.extended _ _ hget, hasset⟩
  rw [isForTarget_iff, isForTarget_iff, h.good_iff (ObservationGraph.mem_values.mp (List.mem_filter.mp ho).1)]
  exact and_congr_right fun _ => and_congr_right fun _ => iff_of_true (.inl hmeets') (.inl hmeets)

/-- What is new does not count. -/
theorem not_isForTarget (hkind : kind ∈ surfaceKinds) {o : Observation} (ho : o ∈ graph'.byKind kind)
    (hnew : graph.items.get? o.id = none) : ¬ isForTarget u target graph' o = true := by
  obtain ⟨hmem, hword⟩ := List.mem_filter.mp ho
  have hasset : isAsset o = false := by
    have hkinds : ∀ k ∈ surfaceKinds, decide (k.word = ObservationKind.asset.word) = false := by decide
    unfold isAsset
    rw [of_decide_eq_true hword]
    exact hkinds kind hkind
  rw [isForTarget_iff]
  rintro ⟨hown, hgood, -⟩
  rcases h.foreign o.id o (ObservationGraph.mem_values.mp hmem) hnew with hother | ⟨-, id, x, hid, hget, hother⟩
  · rcases hother with ⟨hyes, -⟩ | hrejects
    · rw [hasset] at hyes
      cases hyes
    · rw [hown] at hrejects
      cases hrejects
  · obtain ⟨y, hy, hnot⟩ := hgood id hid
    cases hget.symm.trans hy
    exact hnot hother

theorem matching_eq_nil (hkind : kind ∈ surfaceKinds) :
    matching u target graph' kind = [] ↔ matching u target graph kind = [] := by
  unfold matching
  rw [List.filter_eq_nil_iff, List.filter_eq_nil_iff]
  constructor
  · intro hnone o ho hcounts
    obtain ⟨hmem, hword⟩ := List.mem_filter.mp ho
    have ho' : o ∈ graph'.byKind kind :=
      List.mem_filter.mpr ⟨ObservationGraph.mem_values.mpr (h.extended _ _ (ObservationGraph.mem_values.mp hmem)), hword⟩
    exact hnone o ho' ((h.isForTarget_eq hkind ho).mpr hcounts)
  · intro hnone o ho hcounts
    obtain ⟨hmem, hword⟩ := List.mem_filter.mp ho
    cases hold : graph.items.get? o.id with
    | none => exact h.not_isForTarget hkind ho hold hcounts
    | some o' =>
      have hsame := Option.some.inj ((h.extended _ _ hold).symm.trans (ObservationGraph.mem_values.mp hmem))
      subst hsame
      have ho' : o' ∈ graph.byKind kind := List.mem_filter.mpr ⟨ObservationGraph.mem_values.mpr hold, hword⟩
      exact hnone o' ho' ((h.isForTarget_eq hkind ho').mp hcounts)

theorem any_compatible : (graph.byKind .asset).any (fun asset => compatibleAsset u target asset.value) = true ∧
    (graph'.byKind .asset).any (fun asset => compatibleAsset u target asset.value) = true := by
  obtain ⟨asset, hasset, hcompatible⟩ := h.asset
  obtain ⟨hmem, hword⟩ := List.mem_filter.mp hasset
  have hasset' : asset ∈ graph'.byKind .asset :=
    List.mem_filter.mpr ⟨ObservationGraph.mem_values.mpr (h.extended _ _ (ObservationGraph.mem_values.mp hmem)), hword⟩
  exact ⟨List.any_eq_true.mpr ⟨asset, hasset, hcompatible⟩, List.any_eq_true.mpr ⟨asset, hasset', hcompatible⟩⟩

end Isolated

/-- The tasks depend on what is missing only. -/
theorem tasksFor_congr {safe : String} {endpoints forms technologies wafs endpoints' forms' technologies' wafs' : List Observation}
    (he : endpoints' = [] ↔ endpoints = []) (hf : forms' = [] ↔ forms = []) (ht : technologies' = [] ↔ technologies = [])
    (hw : wafs' = [] ↔ wafs = []) :
    tasksFor safe endpoints' forms' technologies' wafs' = tasksFor safe endpoints forms technologies wafs := by
  simp only [tasksFor, ne_eq, he, hf, ht, hw]

/-- The origin of a target, if it has one. -/
def targetOrigin (u : Unicode) (text : String) : Option Origin :=
  match safeTarget u text with
  | .ok (some (safe, _)) => originIdentity u false safe
  | _ => none

/-- Observations that do not belong to the origin of the target leave its plan as it is. -/
theorem recon_plan_isolated (u : Unicode) (scopeChecker : String → Bool) (limit : Int) (text : String)
    (graph graph' : ObservationGraph) (h : ∀ origin, targetOrigin u text = some origin → Isolated u origin graph graph') :
    buildReconPlan u scopeChecker limit text graph' = buildReconPlan u scopeChecker limit text graph := by
  unfold buildReconPlan
  split
  · rfl
  · split
    · rfl
    · rfl
    · rename_i safe host hsafe
      split
      · rfl
      · split
        · rfl
        · rename_i origin horigin
          have hisolated := h origin (by rw [targetOrigin, hsafe]; exact horigin)
          obtain ⟨hany, hany'⟩ := hisolated.any_compatible
          dsimp only
          rw [if_neg (by rw [hany']; exact fun hc => (by cases hc.2)), if_neg (by rw [hany]; exact fun hc => (by cases hc.2)),
            tasksFor_congr (hisolated.matching_eq_nil (by decide)) (hisolated.matching_eq_nil (by decide))
              (hisolated.matching_eq_nil (by decide)) (hisolated.matching_eq_nil (by decide))]

/-! ## A second site -/

def sampleText : String := "https://app.example.com/"

def sampleOrigin : Origin := ⟨"app.example.com".toList, some "https".toList, some 443⟩

theorem targetOrigin_sample : targetOrigin ExecutionContract.sampleUnicode sampleText = some sampleOrigin := by decide +kernel

example : sameOrigin ExecutionContract.sampleUnicode sampleOrigin "https://app.example.com/login" = true := by decide +kernel

def siteAsset : Observation := ⟨"asset:app", "asset", "https://app.example.com", "recon", [], []⟩
def siteEndpoint : Observation := ⟨"endpoint:app", "endpoint", "https://app.example.com/login", "recon", ["asset:app"], []⟩
def otherAsset : Observation := ⟨"asset:other", "asset", "https://other.example.org", "recon", [], []⟩
def otherForm : Observation := ⟨"form:other", "form", "https://other.example.org/login", "recon", ["asset:other"], []⟩

def siteGraph : ObservationGraph := (ObservationGraph.empty.put siteAsset).put siteEndpoint

def widerGraph : ObservationGraph := (siteGraph.put otherAsset).put otherForm

theorem get_put {graph : ObservationGraph} :
    (graph.put o).items.get? id = if id = o.id then some o else graph.items.get? id := Dict.get?_set

theorem get_siteGraph (h : siteGraph.items.get? id = some o) :
    (id = "endpoint:app" ∧ o = siteEndpoint) ∨ (id = "asset:app" ∧ o = siteAsset) := by
  unfold siteGraph at h
  rw [get_put] at h
  split at h
  · rename_i hid
    exact .inl ⟨hid, (Option.some.inj h).symm⟩
  · rw [get_put] at h
    split at h
    · rename_i hid
      exact .inr ⟨hid, (Option.some.inj h).symm⟩
    · cases h

theorem compatible_siteAsset : compatibleAsset ExecutionContract.sampleUnicode sampleOrigin siteAsset.value = true := by decide +kernel

theorem incompatible_otherAsset : compatibleAsset ExecutionContract.sampleUnicode sampleOrigin otherAsset.value = false := by
  decide +kernel

theorem rejects_otherForm : rejects ExecutionContract.sampleUnicode sampleOrigin otherForm = true := by decide +kernel

theorem isolated_sample : Isolated ExecutionContract.sampleUnicode sampleOrigin siteGraph widerGraph where
  asset := ⟨siteAsset, List.mem_filter.mpr ⟨ObservationGraph.mem_values.mpr rfl, rfl⟩, compatible_siteAsset⟩
  linked kind hkind o ho := by
    obtain ⟨hmem, hword⟩ := List.mem_filter.mp ho
    rcases get_siteGraph (ObservationGraph.mem_values.mp hmem) with ⟨-, rfl⟩ | ⟨-, rfl⟩
    · have hparent : siteGraph.items.get? "asset:app" = some siteAsset := rfl
      exact ⟨siteAsset, .parent (List.mem_singleton.mpr rfl) hparent, rfl⟩
    · have hkinds : ∀ k ∈ surfaceKinds, ¬ siteAsset.kind = k.word := by decide
      exact absurd (of_decide_eq_true hword) (hkinds kind hkind)
  extended id o h := by
    unfold widerGraph
    rcases get_siteGraph h with ⟨rfl, rfl⟩ | ⟨rfl, rfl⟩
    · rfl
    · rfl
  foreign id o h hnew := by
    unfold widerGraph at h
    rw [get_put] at h
    split at h
    · rw [← Option.some.inj h]
      exact .inl (.inr rejects_otherForm)
    · rw [get_put] at h
      split at h
      · rw [← Option.some.inj h]
        exact .inl (.inl ⟨rfl, incompatible_otherAsset⟩)
      · rw [hnew] at h
        cases h

/-- The plan for a site is the same beside another site. -/
theorem recon_plan_isolated_sample :
    buildReconPlan ExecutionContract.sampleUnicode (fun _ => true) 10 sampleText widerGraph =
      buildReconPlan ExecutionContract.sampleUnicode (fun _ => true) 10 sampleText siteGraph :=
  recon_plan_isolated ExecutionContract.sampleUnicode (fun _ => true) 10 sampleText siteGraph widerGraph fun _ horigin =>
    Option.some.inj (targetOrigin_sample.symm.trans horigin) ▸ isolated_sample

end ReconPlan

end XbowPerso
