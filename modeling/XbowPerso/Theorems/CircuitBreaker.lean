import XbowPerso.CircuitBreaker
import XbowPerso.Lemmas.ObservationStore

/-!
# Which operation the breaker remembers

The breaker is read off the last of its observations. A new observation that comes after those with its own time, in the order of the
rows, is that one. An observation that is there already, or that comes before one with its time, is not.
-/

namespace XbowPerso

namespace CircuitBreaker

variable {env : BreakerEnv} {cfg : ObservationSettings} {rows rows' : List StampedRow} {graph : ObservationGraph} {o : Observation}
  {new r : StampedRow}

/-- The recorded time of a row. -/
def StampedRow.time (env : BreakerEnv) (r : StampedRow) : String := metadataText env r.row.toObservation "at"

/-- The rows of a campaign, with the times that are still to be recorded: no event of the breaker has parents, and none is later than
these times. -/
structure Valid (env : BreakerEnv) (rows : List StampedRow) (times : List String) : Prop where
  stored : Observations.Valid (rows.map StampedRow.row)
  roots : ∀ r ∈ rows, isEvent r.row.toObservation = true → r.row.parentIds = []
  times : ∀ r ∈ rows, isEvent r.row.toObservation = true → ∀ t ∈ times, r.time env ≤ t

/-! ## The order of the rows -/

instance : Std.Total (fun a b : StampedRow => a.key ≤ b.key) := ⟨fun a b => le_total a.key b.key⟩

instance : IsTrans StampedRow (fun a b => a.key ≤ b.key) := ⟨fun _ _ _ hab hbc => le_trans hab hbc⟩

/-- The rows as listed. -/
def listed (rows : List StampedRow) : List StampedRow := rows.insertionSort fun a b => a.key ≤ b.key

theorem listed_perm (rows : List StampedRow) : (listed rows).Perm rows := List.perm_insertionSort _ rows

theorem listed_sorted (rows : List StampedRow) : (listed rows).Pairwise fun a b => a.key ≤ b.key := List.pairwise_insertionSort _ rows

/-- Rows with one key are one row. -/
theorem eq_of_key (hrows : Observations.Valid (rows.map StampedRow.row)) {a b : StampedRow} (ha : a ∈ rows) (hb : b ∈ rows)
    (hkey : a.key = b.key) : a = b := by
  have hid : a.row.id = b.row.id := Ident.text_injective (congrArg (fun k => (ofLex k).2) hkey)
  have hids : ((rows.map fun r => r.row.id)).Nodup := by
    have hnodup := hrows.nodup
    rwa [List.map_map] at hnodup
  exact List.inj_on_of_nodup_map hids ha hb hid

/-- A row that is no event of the breaker changes nothing in the order of the events. -/
theorem listed_events_concat (hrows : Observations.Valid ((rows ++ [r]).map StampedRow.row))
    (hr : isEvent r.row.toObservation = false) :
    (listed (rows ++ [r])).filter (fun x => isEvent x.row.toObservation) = (listed rows).filter fun x => isEvent x.row.toObservation := by
  have hperm : ((listed (rows ++ [r])).filter fun x => isEvent x.row.toObservation).Perm
      ((listed rows).filter fun x => isEvent x.row.toObservation) := by
    refine ((listed_perm _).filter _).trans (.trans ?_ ((listed_perm rows).filter _).symm)
    rw [List.filter_append, List.filter_cons_of_neg (by rw [hr]; exact Bool.false_ne_true), List.filter_nil, List.append_nil]
  have hsub : ∀ x ∈ (listed (rows ++ [r])).filter (fun x => isEvent x.row.toObservation), x ∈ rows ++ [r] :=
    fun x hx => (listed_perm _).subset (List.mem_filter.mp hx).1
  refine hperm.eq_of_pairwise (fun a b ha hb hab hba => ?_) ((listed_sorted _).sublist List.filter_sublist)
    ((listed_sorted _).sublist List.filter_sublist)
  exact eq_of_key hrows (hsub a ha) (hsub b (hperm.symm.subset hb)) (le_antisymm hab hba)

/-! ## The events of the rebuilt graph -/

theorem events_eq (graph : ObservationGraph) : events graph = graph.values.filter isEvent := by
  unfold events ObservationGraph.byKind
  rw [List.filter_filter]
  refine List.filter_congr fun o _ => ?_
  unfold isEvent
  rw [Bool.and_comm]

variable {times : List String}

/-- The rows of a valid campaign are rebuilt, and the events keep their order. -/
theorem fromRecords_of_valid (h : Valid env rows times) :
    ∃ graph, ObservationGraph.fromRecords (listObservations rows) = .ok graph ∧
      events graph = ((listed rows).filter fun r => isEvent r.row.toObservation).map fun r => r.row.toObservation := by
  have hperm : (listObservations rows).Perm ((rows.map StampedRow.row).map ObservationRow.toObservation) := by
    rw [List.map_map]
    exact (listed_perm rows).map _
  obtain ⟨graph, hgraph, hvalues⟩ := ObservationGraph.fromRecords_perm h.stored.nodup_records h.stored.rooted hperm
  refine ⟨graph, hgraph, ?_⟩
  have hroots := ObservationGraph.fromRecords_roots ((hperm.map Observation.id).nodup_iff.mpr h.stored.nodup_records) hgraph
  -- an event has no parents, so the events are among the roots
  have hevent : ∀ x ∈ listObservations rows, isEvent x = (isEvent x && ObservationGraph.isRoot x) := by
    intro x hx
    obtain ⟨r, hr, rfl⟩ := List.mem_map.mp hx
    cases hisEvent : isEvent r.row.toObservation with
    | false => rfl
    | true =>
      have hparents := h.roots r ((listed_perm rows).subset hr) hisEvent
      have hroot : r.row.toObservation.parentIds = [] := by
        show r.row.parentIds.map Ident.text = []
        rw [hparents, List.map_nil]
      exact (decide_eq_true hroot).symm
  rw [events_eq]
  calc graph.values.filter isEvent
      = graph.values.filter (fun x => isEvent x && ObservationGraph.isRoot x) :=
        List.filter_congr fun x hx => hevent x (hperm.symm.subset (hvalues.subset hx))
    _ = (graph.values.filter ObservationGraph.isRoot).filter isEvent := List.filter_filter.symm
    _ = ((listObservations rows).filter ObservationGraph.isRoot).filter isEvent := by rw [hroots]
    _ = (listObservations rows).filter (fun x => isEvent x && ObservationGraph.isRoot x) := List.filter_filter
    _ = (listObservations rows).filter isEvent := (List.filter_congr hevent).symm
    _ = _ := by
        unfold listObservations listed
        rw [List.filter_map]
        rfl

/-! ## The last event -/

/-- What no other member comes after is last. -/
theorem getLast?_eq_of_sublist {α : Type} {l : List α} {x : α} (hnodup : l.Nodup) (hx : x ∈ l)
    (hbefore : ∀ y ∈ l, y ≠ x → [y, x].Sublist l ∨ ¬ [x, y].Sublist l) : l.getLast? = some x := by
  rcases List.eq_nil_or_concat l with rfl | ⟨init, y, rfl⟩
  · exact absurd hx List.not_mem_nil
  · rw [List.concat_eq_append] at *
    rw [List.getLast?_concat]
    by_contra hne
    have hyx : y ≠ x := fun h => hne (congrArg some h)
    have hinit : x ∈ init := by
      rcases List.mem_append.mp hx with h | h
      · exact h
      · exact absurd (List.mem_singleton.mp h).symm hyx
    rcases hbefore y (List.mem_append_right _ (List.mem_singleton.mpr rfl)) hyx with hsub | hnot
    · obtain ⟨front, back, hsplit, hfront, hback⟩ := List.sublist_append_iff.mp hsub
      rw [List.nodup_append] at hnodup
      rcases List.sublist_singleton.mp hback with rfl | rfl
      · rw [List.append_nil] at hsplit
        rw [← hsplit] at hfront
        exact hnodup.2.2 y (hfront.subset (List.mem_cons_self ..)) y (List.mem_singleton.mpr rfl) rfl
      · have hpair : [y] ++ [x] = front ++ [y] := hsplit
        obtain ⟨-, hlast⟩ := List.append_inj' hpair rfl
        cases hlast
        exact hyx rfl
    · exact hnot ((List.singleton_sublist.mpr hinit).append (List.Sublist.refl [y]))

/-- The events as listed. -/
def listedEvents (rows : List StampedRow) : List Observation :=
  ((listed rows).filter fun r => isEvent r.row.toObservation).map fun r => r.row.toObservation

instance : Std.Total (fun a b : Observation => metadataText env a "at" ≤ metadataText env b "at") :=
  ⟨fun a b => le_total (metadataText env a "at") (metadataText env b "at")⟩

instance : IsTrans Observation (fun a b => metadataText env a "at" ≤ metadataText env b "at") :=
  ⟨fun _ _ _ hab hbc => le_trans hab hbc⟩

theorem nodup_listedEvents (hrows : Observations.Valid (rows.map StampedRow.row)) : (listedEvents rows).Nodup := by
  refine List.Nodup.of_map Observation.id ?_
  have hsub : (listedEvents rows).Sublist ((listed rows).map fun r => r.row.toObservation) := List.filter_sublist.map _
  refine (hsub.map Observation.id).nodup ?_
  have hperm : ((listed rows).map fun r => r.row.toObservation).Perm ((rows.map StampedRow.row).map ObservationRow.toObservation) := by
    rw [List.map_map]
    exact (listed_perm rows).map _
  exact (hperm.map Observation.id).nodup_iff.mpr hrows.nodup_records

theorem mem_listedEvents : o ∈ listedEvents rows ↔ ∃ r ∈ rows, isEvent r.row.toObservation = true ∧ r.row.toObservation = o := by
  unfold listedEvents
  simp only [List.mem_map, List.mem_filter, (listed_perm rows).mem_iff, and_assoc]

/-- An event that is not earlier than any other, and comes after those with its time, is the last one. -/
theorem ordered_getLast? (hrows : Observations.Valid ((rows ++ [new]).map StampedRow.row))
    (hnew : isEvent new.row.toObservation = true)
    (htimes : ∀ r ∈ rows, isEvent r.row.toObservation = true → r.time env ≤ new.time env)
    (hties : ∀ r ∈ rows, isEvent r.row.toObservation = true → r.time env = new.time env → r.key ≤ new.key) :
    (ordered env (listedEvents (rows ++ [new]))).getLast? = some new.row.toObservation := by
  have hperm : (ordered env (listedEvents (rows ++ [new]))).Perm (listedEvents (rows ++ [new])) := List.perm_insertionSort _ _
  have hsorted : (ordered env (listedEvents (rows ++ [new]))).Pairwise fun a b => metadataText env a "at" ≤ metadataText env b "at" :=
    List.pairwise_insertionSort _ _
  have hmem : new.row.toObservation ∈ listedEvents (rows ++ [new]) :=
    mem_listedEvents.mpr ⟨new, List.mem_append_right _ (List.mem_singleton.mpr rfl), hnew, rfl⟩
  refine getLast?_eq_of_sublist (hperm.nodup_iff.mpr (nodup_listedEvents hrows)) (hperm.mem_iff.mpr hmem) fun y hy hyx => ?_
  obtain ⟨r, hr, hevent, rfl⟩ := mem_listedEvents.mp (hperm.mem_iff.mp hy)
  have hrow : r ∈ rows := by
    rcases List.mem_append.mp hr with h | h
    · exact h
    · exact absurd (congrArg (fun r => r.row.toObservation) (List.mem_singleton.mp h)) hyx
  by_cases htie : r.time env = new.time env
  · -- both sorts keep the pair
    have hpair : [r, new].Sublist (rows ++ [new]) := (List.singleton_sublist.mpr hrow).append (List.Sublist.refl [new])
    have hlisted : [r, new].Sublist (listed (rows ++ [new])) :=
      List.pair_sublist_insertionSort (r := fun a b : StampedRow => a.key ≤ b.key) (hties r hrow hevent htie) hpair
    have hfilter := (hlisted.filter fun r => isEvent r.row.toObservation).map fun r => r.row.toObservation
    have hboth : [r, new].filter (fun r => isEvent r.row.toObservation) = [r, new] := by
      simp [hevent, hnew]
    rw [hboth] at hfilter
    exact .inl (List.pair_sublist_insertionSort (r := fun a b : Observation => metadataText env a "at" ≤ metadataText env b "at")
      htie.le hfilter)
  · refine .inr fun hsub => htie ?_
    have hpair := hsorted.sublist hsub
    have hle : new.time env ≤ r.time env := (List.pairwise_cons.mp hpair).1 _ (List.mem_singleton.mpr rfl)
    exact le_antisymm (htimes r hrow hevent) hle

/-! ## What the operations do -/

/-- The state that the events give. -/
def stateOf (env : BreakerEnv) (latest : Option Observation) : BreakerState :=
  match latest with
  | none => ⟨false, .null, .null, .null⟩
  | some latest =>
    let state := metadataText env latest "state"
    ⟨decide (state = "open"), if state = "open" then latest.metadataGet "reason" else .null,
      if state = "open" then latest.metadataGet "at" else .null, if state = "reset" then latest.metadataGet "at" else .null⟩

theorem currentState_of_valid (h : Valid env rows times) :
    currentState env rows = .ok (stateOf env (ordered env (listedEvents rows)).getLast?) := by
  obtain ⟨graph, hgraph, hevents⟩ := fromRecords_of_valid h
  unfold currentState
  rw [hgraph]
  show Except.ok (circuitBreakerState env graph) = _
  unfold circuitBreakerState
  rw [hevents]
  rfl

variable {row : ObservationRow}

/-- What the checks make of an observation keeps its kind and its metadata. -/
theorem of_prepare (h : o.prepare cfg = .ok row) :
    row.kind.word = o.kind ∧ row.metadata = o.metadata ∧ (o.parentIds = [] → row.parentIds = []) := by
  unfold Observation.prepare at h
  split at h
  · cases h
  rename_i kind hkind
  split at h
  · cases h
  split at h
  · cases h
  rename_i parents hparents
  split at h
  · cases h
  dsimp only at h
  split at h
  · cases h
  cases h
  refine ⟨by simpa using List.find?_some hkind, rfl, fun hnil => ?_⟩
  rw [hnil] at hparents
  cases hparents
  rfl

theorem isEvent_of_prepare (h : o.prepare cfg = .ok row) : isEvent row.toObservation = isEvent o := by
  obtain ⟨hkind, hmetadata, -⟩ := of_prepare h
  unfold isEvent Observation.metadataIs ObservationRow.toObservation
  rw [hkind, hmetadata]

theorem metadataGet_of_prepare (h : o.prepare cfg = .ok row) (key : String) :
    row.toObservation.metadataGet key = o.metadataGet key := by
  unfold Observation.metadataGet ObservationRow.toObservation
  rw [(of_prepare h).2.1]

theorem metadataText_of_prepare (h : o.prepare cfg = .ok row) (key : String) :
    metadataText env row.toObservation key = metadataText env o key := by
  unfold metadataText
  rw [metadataGet_of_prepare h]

theorem putObservation_cases {now : String} (h : putObservation cfg rows o now = .ok rows') :
    ∃ row, o.prepare cfg = .ok row ∧ ((rows' = rows ∧ row.id ∈ rows.map fun r => r.row.id) ∨
      (rows' = rows ++ [⟨row, now⟩] ∧ row.id ∉ rows.map (fun r => r.row.id) ∧
        ∀ p ∈ row.parentIds, p ∈ (rows.map StampedRow.row).map ObservationRow.id)) := by
  unfold putObservation at h
  split at h
  · cases h
  rename_i row hprepare
  split at h
  · cases h
  rename_i after hinsert
  cases h
  have hids : (rows.map StampedRow.row).map ObservationRow.id = rows.map fun r => r.row.id := by
    rw [List.map_map]
    rfl
  refine ⟨row, hprepare, ?_⟩
  rcases Observations.insert_cases hinsert with ⟨-, hnew, hparents⟩ | ⟨-, hold⟩
  · rw [hids] at hnew
    rw [if_neg hnew]
    exact .inr ⟨rfl, hnew, hparents⟩
  · rw [hids] at hold
    rw [if_pos hold]
    exact .inl ⟨rfl, hold⟩

/-- A new row keeps the rows valid, with fewer times to be recorded, when an event has no parents and is not later than these. -/
theorem Valid.concat {times' : List String} (h : Valid env rows times) (hsub : ∀ t ∈ times', t ∈ times)
    (hnew : new.row.id ∉ rows.map fun r => r.row.id)
    (hparents : ∀ p ∈ new.row.parentIds, p ∈ (rows.map StampedRow.row).map ObservationRow.id)
    (hroot : isEvent new.row.toObservation = true → new.row.parentIds = [] ∧ ∀ t ∈ times', new.time env ≤ t) :
    Valid env (rows ++ [new]) times' where
  stored := by
    rw [List.map_append]
    refine h.stored.concat ?_ hparents
    rwa [List.map_map]
  roots r hr hevent := by
    rcases List.mem_append.mp hr with hr | hr
    · exact h.roots r hr hevent
    · rw [List.mem_singleton.mp hr] at hevent ⊢
      exact (hroot hevent).1
  times r hr hevent t ht := by
    rcases List.mem_append.mp hr with hr | hr
    · exact h.times r hr hevent t (hsub t ht)
    · rw [List.mem_singleton.mp hr] at hevent ⊢
      exact (hroot hevent).2 t ht

theorem Valid.mono {times' : List String} (h : Valid env rows times) (hsub : ∀ t ∈ times', t ∈ times) : Valid env rows times' where
  stored := h.stored
  roots := h.roots
  times r hr hevent t ht := h.times r hr hevent t (hsub t ht)

/-! ## Runs -/

theorem metadataText_of_get {key s : String} (h : o.metadataGet key = .str s) : metadataText env o key = s := by
  unfold metadataText
  rw [h, env.str_str]
  by_cases hs : s = ""
  · simp [AuditSeal.truthy, hs]
  · simp [AuditSeal.truthy, hs]

/-- A new observation of the breaker comes last: its identifier is not there yet, and the rows of the breaker with its time come before
its row. -/
def ComesLast (env : BreakerEnv) (cfg : ObservationSettings) (rows : List StampedRow) (o : Observation) (now : String) : Prop :=
  ∀ row, o.prepare cfg = .ok row → row.id ∉ rows.map (fun r => r.row.id) ∧
    ∀ r ∈ rows, isEvent r.row.toObservation = true → r.time env = metadataText env o "at" → r.key ≤ StampedRow.key ⟨row, now⟩

/-- What an operation that writes needs. -/
def StepCondition (env : BreakerEnv) (cfg : ObservationSettings) (rows : List StampedRow) : Operation → Prop
  | .open reason time now => ∀ current, currentState env rows = .ok current → current.isOpen = false →
      ComesLast env cfg rows (openObservation env reason time) now
  | .reset time now => ∀ current, currentState env rows = .ok current → current.isOpen = true →
      ComesLast env cfg rows (resetObservation env current.openedAt time) now
  | .record _ _ _ => True

/-- Every operation has what it needs, in the state that it finds. -/
def RunCondition (env : BreakerEnv) (cfg : ObservationSettings) : List StampedRow → List Operation → Prop
  | _, [] => True
  | rows, op :: ops => StepCondition env cfg rows op ∧ ∀ rows', step env cfg rows op = .ok rows' → RunCondition env cfg rows' ops

/-- An observation of the breaker that comes last decides the state. -/
theorem put_event {time now : String} (h : Valid env rows (time :: times)) (hevent : isEvent o = true)
    (hroot : o.parentIds = []) (htime : metadataText env o "at" = time) (hnext : ∀ t ∈ times, time ≤ t)
    (hlast : ComesLast env cfg rows o now) (hput : putObservation cfg rows o now = .ok rows') :
    Valid env rows' times ∧ currentState env rows' = .ok (stateOf env (some o)) := by
  obtain ⟨row, hprepare, hcases⟩ := putObservation_cases hput
  obtain ⟨hnew, hties⟩ := hlast row hprepare
  have htext : ∀ key, metadataText env row.toObservation key = metadataText env o key := metadataText_of_prepare hprepare
  rcases hcases with ⟨-, hold⟩ | ⟨rfl, -, hknown⟩
  · exact absurd hold hnew
  · have hrowTime : StampedRow.time env ⟨row, now⟩ = time := (htext "at").trans htime
    have hvalid : Valid env (rows ++ [⟨row, now⟩]) times := by
      refine h.concat (fun t ht => List.mem_cons_of_mem _ ht) hnew hknown fun _ => ⟨(of_prepare hprepare).2.2 hroot, fun t ht => ?_⟩
      rw [hrowTime]
      exact hnext t ht
    refine ⟨hvalid, ?_⟩
    rw [currentState_of_valid hvalid, ordered_getLast? hvalid.stored ((isEvent_of_prepare hprepare).trans hevent)]
    · unfold stateOf
      simp only [htext, metadataGet_of_prepare hprepare]
    · intro r hr hr'
      rw [hrowTime]
      exact h.times r hr hr' time (List.mem_cons_self ..)
    · intro r hr hr' htie
      exact hties r hr hr' (htie.trans (hrowTime.trans htime.symm))

/-- An observation of another component changes nothing for the breaker. -/
theorem put_other {now : String} (h : Valid env rows times) (hother : isEvent o = false)
    (hput : putObservation cfg rows o now = .ok rows') :
    Valid env rows' times ∧ currentState env rows' = currentState env rows := by
  obtain ⟨row, hprepare, hcases⟩ := putObservation_cases hput
  have hkind := (isEvent_of_prepare hprepare).trans hother
  rcases hcases with ⟨rfl, -⟩ | ⟨rfl, hnew, hknown⟩
  · exact ⟨h, rfl⟩
  · have hvalid : Valid env (rows ++ [⟨row, now⟩]) times :=
      h.concat (fun _ ht => ht) hnew hknown fun hevent => absurd hevent (by rw [hkind]; exact Bool.false_ne_true)
    refine ⟨hvalid, ?_⟩
    rw [currentState_of_valid hvalid, currentState_of_valid h]
    unfold listedEvents
    rw [listed_events_concat hvalid.stored hkind]

theorem isOpen_open (env : BreakerEnv) (reason time : String) :
    (stateOf env (some (openObservation env reason time))).isOpen = true := by
  have hstate : metadataText env (openObservation env reason time) "state" = "open" := metadataText_of_get rfl
  simp [stateOf, hstate]

theorem isOpen_reset (env : BreakerEnv) (openedAt : Json) (time : String) :
    (stateOf env (some (resetObservation env openedAt time))).isOpen = false := by
  have hstate : metadataText env (resetObservation env openedAt time) "state" = "reset" := metadataText_of_get rfl
  simp [stateOf, hstate]

/-- A step: the state is open after an open, closed after a reset, and as it was after anything else. -/
theorem step_state {op : Operation} {current : BreakerState} (h : Valid env rows (op.time?.toList ++ times))
    (hcurrent : currentState env rows = .ok current) (hnext : ∀ time ∈ op.time?, ∀ t ∈ times, time ≤ t)
    (hcond : StepCondition env cfg rows op) (hstep : step env cfg rows op = .ok rows') :
    Valid env rows' times ∧
      ∃ after, currentState env rows' = .ok after ∧ after.isOpen = op.opens?.getD current.isOpen := by
  have hmono : Valid env rows times := h.mono fun t ht => List.mem_append_right _ ht
  cases op with
  | «open» reason time now =>
    unfold step recordCircuitOpen at hstep
    rw [hcurrent] at hstep
    dsimp only at hstep
    split at hstep
    · rename_i hopen
      cases hstep
      exact ⟨hmono, current, hcurrent, hopen⟩
    · rename_i hopen
      split at hstep
      · cases hstep
      rename_i after hput
      cases hstep
      obtain ⟨hvalid, hstate⟩ := put_event h rfl rfl (metadataText_of_get rfl) (hnext time rfl)
        (hcond current hcurrent ((Bool.not_eq_true _).mp hopen)) hput
      exact ⟨hvalid, _, hstate, isOpen_open env reason time⟩
  | reset time now =>
    unfold step recordCircuitReset at hstep
    rw [hcurrent] at hstep
    dsimp only at hstep
    split at hstep
    · rename_i hclosed
      cases hstep
      exact ⟨hmono, current, hcurrent, hclosed⟩
    · rename_i hclosed
      split at hstep
      · cases hstep
      rename_i after hput
      cases hstep
      obtain ⟨hvalid, hstate⟩ := put_event h rfl rfl (metadataText_of_get rfl) (hnext time rfl)
        (hcond current hcurrent ((Bool.not_eq_false _).mp hclosed)) hput
      exact ⟨hvalid, _, hstate, isOpen_reset env current.openedAt time⟩
  | record o now other =>
    obtain ⟨hvalid, hstate⟩ := put_other h other hstep
    exact ⟨hvalid, current, hstate.trans hcurrent, rfl⟩

theorem run_state {ops : List Operation} {current : BreakerState} (h : Valid env rows (ops.filterMap Operation.time?))
    (hcurrent : currentState env rows = .ok current) (htimes : (ops.filterMap Operation.time?).Pairwise (· ≤ ·))
    (hcond : RunCondition env cfg rows ops) (hrun : run env cfg rows ops = .ok rows') :
    ∃ after, currentState env rows' = .ok after ∧ after.isOpen = (ops.filterMap Operation.opens?).getLast?.getD current.isOpen := by
  induction ops generalizing rows current with
  | nil =>
    cases hrun
    exact ⟨current, hcurrent, rfl⟩
  | cons op ops ih =>
    unfold run at hrun
    split at hrun
    · cases hrun
    rename_i rows₁ hstep
    have hsplit : (op :: ops).filterMap Operation.time? = op.time?.toList ++ ops.filterMap Operation.time? := by
      rw [List.filterMap_cons]
      cases op.time? <;> rfl
    rw [hsplit] at h htimes
    obtain ⟨-, hrest, hcross⟩ := List.pairwise_append.mp htimes
    obtain ⟨hvalid, middle, hmiddle, hopen⟩ := step_state h hcurrent
      (fun time htime => hcross time (Option.mem_toList.mpr htime)) hcond.1 hstep
    obtain ⟨after, hafter, hlast⟩ := ih hvalid hmiddle hrest (hcond.2 _ hstep) hrun
    refine ⟨after, hafter, ?_⟩
    rw [hlast, hopen, List.filterMap_cons]
    cases op.opens? with
    | none => rfl
    | some b => rw [List.getLast?_cons, Option.getD_some, Option.getD_some]

/-- A digest that tells the texts of an open from those of a reset. -/
def sampleHex (bytes : List UInt8) : String := String.ofList (List.replicate 64 (if bytes.head? = some 111 then '0' else '1'))

theorem sampleHex_valid (bytes : List UInt8) : RunnerRpc.isHexOfLength 64 (sampleHex bytes) = true := by
  unfold sampleHex
  split
  · decide
  · decide

def sampleBreaker : BreakerEnv := ⟨⟨sampleHex, sampleHex_valid⟩, fun v => (AuditSeal.text? v).getD v.dumps, fun _ => rfl⟩

/-- Opened, reset, and opened again for the same reason at the same recorded time: the second open finds its identifier. -/
def sampleOperations : List Operation :=
  [.open "stalled" "10:00" "10:01",
    .reset "10:00" "10:02",
    .open "stalled" "10:00" "10:03"]

theorem closed_after_sample :
    ((run sampleBreaker .default [] sampleOperations).bind (currentState sampleBreaker)).toOption.map BreakerState.isOpen =
      some false := by
  decide +kernel

/-- The digest of the sample tells an open from a reset. -/
example : sampleHex (utf8 "o") ≠ sampleHex (utf8 "r") := by decide +kernel

end CircuitBreaker

end XbowPerso
