import Mathlib.Data.List.Induction
import XbowPerso.DomainIncidents

/-!
# The history says what the snapshots say

Where every domain has at most one unresolved incident, a snapshot rewrites each record by itself and appends the incidents that it opens.
The history is truncated by position, so a quiet incident is lost once the other domains have opened a thousand after it: the history
tracks the snapshots exactly as long as no unresolved incident that goes on is pushed out.
-/

namespace XbowPerso

namespace DomainIncidents

variable {snapshot : Snapshot} {history items : List Record} {domain : Domain} {run : List Snapshot}

/-! ## One round of the loop -/

theorem updateFirst_eq_map {p : Record → Bool} (f : Record → Record) {items : List Record} (h : (items.filter p).length ≤ 1) :
    updateFirst p f items = items.map fun r => if p r then f r else r := by
  induction items with
  | nil => rfl
  | cons r items ih =>
    cases hr : p r with
    | false =>
      rw [List.filter_cons_of_neg (by simp [hr])] at h
      simp [updateFirst, hr, ih h]
    | true =>
      rw [List.filter_cons_of_pos hr, List.length_cons] at h
      have hnone : items.filter p = [] := List.length_eq_zero_iff.mp (by omega)
      have hmap : (items.map fun r => if p r then f r else r) = items :=
        (List.map_congr_left fun x hx => if_neg (List.filter_eq_nil_iff.mp hnone x hx)).trans (List.map_id' items)
      rw [updateFirst, if_pos hr, List.map_cons, if_pos hr, hmap]

theorem updateActive_eq_map (f : Record → Record) (h : (items.filter (Record.unresolved domain)).length ≤ 1) :
    updateActive domain f items = items.map fun r => if Record.unresolved domain r then f r else r := by
  have hreverse : (items.reverse.filter (Record.unresolved domain)).length ≤ 1 := by simpa [List.filter_reverse] using h
  rw [updateActive, updateFirst_eq_map f hreverse, List.map_reverse, List.reverse_reverse]

theorem lastActive_eq (items : List Record) (domain : Domain) :
    lastActive items domain = (items.filter (Record.unresolved domain)).getLast? := by
  rw [lastActive, ← List.head?_filter, List.filter_reverse, List.head?_reverse]

/-- What a snapshot makes of a record, which is one of the unresolved incidents of its domain. -/
def touch (snapshot : Snapshot) (r : Record) : Record :=
  match snapshot.incidents r.domain with
  | none => r.resolve snapshot.timestamp
  | some incident =>
    if r.fingerprint = incident.fingerprint then r.refresh incident.severity snapshot.timestamp else r.resolve snapshot.timestamp

theorem touch_domain (snapshot : Snapshot) (r : Record) : (touch snapshot r).domain = r.domain := by
  unfold touch
  split
  · rfl
  · split <;> rfl

variable {r : Record}

theorem domain_of_unresolved (h : Record.unresolved domain r) : r.domain = domain := by
  simp only [Record.unresolved, Bool.and_eq_true, decide_eq_true_eq] at h
  exact h.1

/-- The record after the round of the domain. -/
def touchFor (snapshot : Snapshot) (domain : Domain) (r : Record) : Record :=
  if Record.unresolved domain r then touch snapshot r else r

theorem applyDomain_eq (h : (items.filter (Record.unresolved domain)).length ≤ 1) :
    applyDomain snapshot items domain = items.map (touchFor snapshot domain) ++ (opens snapshot items domain).toList := by
  have htouched : ∀ f : Record → Record, (∀ r ∈ items, Record.unresolved domain r → touch snapshot r = f r) →
      updateActive domain f items = items.map (touchFor snapshot domain) := by
    intro f hf
    rw [updateActive_eq_map f h]
    refine List.map_congr_left fun r hr => ?_
    by_cases hu : Record.unresolved domain r
    · rw [touchFor, if_pos hu, if_pos hu, hf r hr hu]
    · rw [touchFor, if_neg hu, if_neg hu]
  unfold applyDomain opens
  cases hs : snapshot.incidents domain with
  | none =>
    rw [htouched (Record.resolve snapshot.timestamp) fun r _ hu => by rw [touch, domain_of_unresolved hu, hs]]
    simp
  | some incident =>
    cases hactive : lastActive items domain with
    | none =>
      -- Without an unresolved incident no record is touched.
      have hno : ∀ r ∈ items, ¬ Record.unresolved domain r := by
        intro r hr
        rw [lastActive_eq, List.getLast?_eq_none_iff, List.filter_eq_nil_iff] at hactive
        exact hactive r hr
      have hmap : items.map (touchFor snapshot domain) = items :=
        (List.map_congr_left fun r hr => if_neg (hno r hr)).trans (List.map_id' items)
      simp [hmap]
    | some active =>
      -- The unresolved incidents of the domain are the one that was found.
      have honly : ∀ r ∈ items, Record.unresolved domain r → r = active := by
        intro r hr hu
        have hmem := List.mem_filter.mpr ⟨hr, hu⟩
        rw [lastActive_eq] at hactive
        match hl : items.filter (Record.unresolved domain), hactive, hmem, h with
        | [x], hactive, hmem, _ => simp_all
        | [], _, hmem, _ => simp at hmem
        | _ :: _ :: _, _, _, h => simp at h
      dsimp only
      by_cases hsame : active.fingerprint = incident.fingerprint
      · rw [if_pos hsame, htouched (Record.refresh incident.severity snapshot.timestamp) fun r hr hu => by
          rw [touch, domain_of_unresolved hu, hs, honly r hr hu]
          exact if_pos hsame]
        simp [hsame]
      · rw [if_neg hsame, htouched (Record.resolve snapshot.timestamp) fun r hr hu => by
          rw [touch, domain_of_unresolved hu, hs, honly r hr hu]
          exact if_neg hsame]
        simp [hsame]

/-! ## One snapshot -/

/-- Every domain has at most one unresolved incident. -/
def Single (history : List Record) : Prop :=
  ∀ domain, (history.filter (Record.unresolved domain)).length ≤ 1

theorem touchFor_of_domain_ne {r : Record} (h : r.domain ≠ domain) : touchFor snapshot domain r = r :=
  if_neg fun hu => h (domain_of_unresolved hu)

theorem touchFor_domain (snapshot : Snapshot) (domain : Domain) (r : Record) : (touchFor snapshot domain r).domain = r.domain := by
  unfold touchFor
  split
  · exact touch_domain snapshot r
  · rfl

variable {d d' : Domain}

theorem filter_map_touchFor (h : d ≠ d') (items : List Record) :
    (items.map (touchFor snapshot d)).filter (Record.unresolved d') = items.filter (Record.unresolved d') := by
  induction items with
  | nil => rfl
  | cons r items ih =>
    by_cases hr : r.domain = d
    · have hneg : ∀ x : Record, x.domain = d → ¬ Record.unresolved d' x :=
        fun x hx hu => h (hx.symm.trans (domain_of_unresolved hu))
      rw [List.map_cons, List.filter_cons_of_neg (hneg _ ((touchFor_domain snapshot d r).trans hr)), List.filter_cons_of_neg (hneg r hr), ih]
    · rw [List.map_cons, touchFor_of_domain_ne hr, List.filter_cons, List.filter_cons, ih]

theorem opens_domain (h : opens snapshot history domain = some r) :
    r.domain = domain ∧ ∃ incident, snapshot.incidents domain = some incident ∧
      r = Record.ofIncident domain incident snapshot.timestamp := by
  unfold opens at h
  rw [Option.bind_eq_some_iff] at h
  obtain ⟨incident, hs, h⟩ := h
  split at h
  · cases h
  cases h
  exact ⟨rfl, incident, hs, rfl⟩

theorem unresolved_opens (h : opens snapshot history d = some r) :
    Record.unresolved d' r = decide (d = d') := by
  obtain ⟨hdomain, incident, _, rfl⟩ := opens_domain h
  by_cases hd : d = d' <;> simp [Record.unresolved, Record.ofIncident, hd]

theorem filter_opens (h : d ≠ d') :
    (opens snapshot history d).toList.filter (Record.unresolved d') = [] := by
  cases hr : opens snapshot history d with
  | none => rfl
  | some r => simp [unresolved_opens hr, h]

/-- A round leaves the unresolved incidents of the other domains. -/
theorem filter_round {d d' : Domain} (h : d ≠ d') :
    (items.map (touchFor snapshot d) ++ (opens snapshot history d).toList).filter (Record.unresolved d') =
      items.filter (Record.unresolved d') := by
  rw [List.filter_append, filter_map_touchFor h, filter_opens h, List.append_nil]

theorem opens_congr (h : items.filter (Record.unresolved domain) = history.filter (Record.unresolved domain)) :
    opens snapshot items domain = opens snapshot history domain := by
  rw [opens, opens, lastActive_eq, lastActive_eq, h]

theorem map_touchFor_opens (h : d ≠ d') :
    (opens snapshot history d).toList.map (touchFor snapshot d') = (opens snapshot history d).toList := by
  cases hr : opens snapshot history d with
  | none => rfl
  | some r =>
    have hdomain := (opens_domain hr).1
    simp [@touchFor_of_domain_ne snapshot d' r fun heq => h (hdomain.symm.trans heq)]

/-- What a snapshot makes of a record. -/
def settle (snapshot : Snapshot) (r : Record) : Record :=
  if r.status = .resolved then r else touch snapshot r

theorem settle_eq (snapshot : Snapshot) (r : Record) :
    settle snapshot r =
      touchFor snapshot .observability (touchFor snapshot .controlPlane (touchFor snapshot .workload r)) := by
  have hown : touchFor snapshot r.domain r = settle snapshot r := by
    by_cases hr : r.status = .resolved <;> simp [touchFor, settle, Record.unresolved, hr]
  have hother : ∀ {d x}, x.domain = r.domain → r.domain ≠ d → touchFor snapshot d x = x :=
    fun hx hd => touchFor_of_domain_ne fun heq => hd (hx.symm.trans heq)
  have hdomain : (settle snapshot r).domain = r.domain := by rw [← hown, touchFor_domain]
  cases hr : r.domain with
  | workload =>
    rw [hr] at hown
    rw [hown, hother hdomain (by simp [hr]), hother hdomain (by simp [hr])]
  | controlPlane =>
    rw [hr] at hown
    rw [hother (x := r) rfl (by simp [hr]), hown, hother hdomain (by simp [hr])]
  | observability =>
    rw [hr] at hown
    rw [hother (x := r) rfl (by simp [hr]), hother (x := r) rfl (by simp [hr]), hown]

/-- What the three domains open, one after the other. -/
theorem filterMap_opens (snapshot : Snapshot) (history : List Record) :
    Domain.all.filterMap (opens snapshot history) = (opens snapshot history .workload).toList ++
      ((opens snapshot history .controlPlane).toList ++ (opens snapshot history .observability).toList) := by
  cases hw : opens snapshot history .workload <;> cases hc : opens snapshot history .controlPlane <;>
    cases ho : opens snapshot history .observability <;> simp [Domain.all, hw, hc, ho]

/-- The rounds rewrite every record by itself and append the incidents that the snapshot opens. -/
theorem foldl_applyDomain (h : Single items) :
    Domain.all.foldl (applyDomain snapshot) items = items.map (settle snapshot) ++ Domain.all.filterMap (opens snapshot items) := by
  have hsettle : items.map (settle snapshot) = ((items.map (touchFor snapshot .workload)).map (touchFor snapshot .controlPlane)).map
      (touchFor snapshot .observability) := by
    rw [List.map_map, List.map_map]
    exact List.map_congr_left fun r _ => settle_eq snapshot r
  have hfirst := @applyDomain_eq snapshot items .workload (h .workload)
  have hcontrol := @filter_round snapshot items items .workload .controlPlane (by decide)
  have hobserve := @filter_round snapshot items items .workload .observability (by decide)
  rw [← hfirst] at hcontrol hobserve
  have hsecond := @applyDomain_eq snapshot _ _ (hcontrol.symm ▸ h .controlPlane)
  rw [opens_congr hcontrol] at hsecond
  have hobserve' := (@filter_round snapshot items (applyDomain snapshot items .workload) .controlPlane .observability (by decide)).trans
    hobserve
  rw [← hsecond] at hobserve'
  have hthird := @applyDomain_eq snapshot _ _ (hobserve'.symm ▸ h .observability)
  rw [opens_congr hobserve'] at hthird
  calc Domain.all.foldl (applyDomain snapshot) items
    _ = applyDomain snapshot (applyDomain snapshot (applyDomain snapshot items .workload) .controlPlane) .observability := rfl
    _ = _ := by
      rw [hthird, hsecond, hfirst, List.map_append, List.map_append, List.map_append, map_touchFor_opens (by decide),
        map_touchFor_opens (by decide), map_touchFor_opens (by decide), ← hsettle, filterMap_opens]
      simp only [List.append_assoc]

theorem length_opened_le (snapshot : Snapshot) (history : List Record) :
    (Domain.all.filterMap (opens snapshot history)).length ≤ 3 :=
  List.length_filterMap_le _ _

theorem keepLast_of_length_le (h : history.length ≤ maxHistory) : keepLast history = history := by
  rw [keepLast, Nat.sub_eq_zero_of_le h, List.drop_zero]

theorem length_keepLast_le (history : List Record) : (keepLast history).length ≤ maxHistory := by
  rw [keepLast, List.length_drop]
  omega

/-- The history after a snapshot: what is left of the records, settled, and the incidents that the snapshot opens. -/
theorem applyDomainIncidents_eq (hlength : history.length ≤ maxHistory) (h : Single history) :
    applyDomainIncidents history snapshot =
      (history.drop (history.length + (Domain.all.filterMap (opens snapshot history)).length - maxHistory)).map (settle snapshot) ++
        Domain.all.filterMap (opens snapshot history) := by
  have hopened := length_opened_le snapshot history
  have hmax : maxHistory = 1000 := rfl
  rw [applyDomainIncidents, keepLast_of_length_le hlength, foldl_applyDomain h, keepLast, List.length_append, List.length_map,
    List.drop_append_of_le_length (by rw [List.length_map]; omega), List.map_drop]

theorem filter_opened (snapshot : Snapshot) (history : List Record) (domain : Domain) :
    (Domain.all.filterMap (opens snapshot history)).filter (Record.unresolved domain) = (opens snapshot history domain).toList := by
  have hown : ∀ d, (opens snapshot history d).toList.filter (Record.unresolved d) = (opens snapshot history d).toList := by
    intro d
    cases hr : opens snapshot history d with
    | none => rfl
    | some r => simp [unresolved_opens hr]
  rw [filterMap_opens, List.filter_append, List.filter_append]
  cases domain <;> simp [hown, filter_opens]

/-- The unresolved incidents that are left are those that the snapshot continues. -/
theorem filter_map_settle (snapshot : Snapshot) (items : List Record) (domain : Domain) :
    (items.map (settle snapshot)).filter (Record.unresolved domain) =
      ((items.filter (Record.unresolved domain)).filter fun r => snapshot.carries domain r.fingerprint).map (settle snapshot) := by
  rw [List.filter_map, List.filter_filter]
  refine congrArg _ (List.filter_congr fun r _ => ?_)
  by_cases hr : r.status = .resolved
  · simp [settle, hr, Record.unresolved]
  · rw [Function.comp, settle, if_neg hr]
    by_cases hd : r.domain = domain
    · have hu : Record.unresolved domain r := by simp [Record.unresolved, hd, hr]
      rw [hu, Bool.and_true, touch, hd, Snapshot.carries]
      cases hs : snapshot.incidents domain with
      | none => simp [Record.unresolved, Record.resolve]
      | some incident =>
        by_cases hsame : r.fingerprint = incident.fingerprint
        · simp [hsame, Record.unresolved, Record.refresh, hd, hr]
        · simp [hsame, Ne.symm hsame, Record.unresolved, Record.resolve]
    · simp [Record.unresolved, touch_domain, hd]

/-! ## What the history tracks -/

theorem current_snoc (domain : Domain) (run : List Snapshot) (snapshot : Snapshot) :
    current domain (run ++ [snapshot]) = snapshot.incidents domain := by
  rw [current, List.getLast?_concat, Option.bind_some]

/-- A snapshot that carries the fingerprint continues its streak or begins one. -/
theorem streakStart_snoc {fingerprint : String} (h : snapshot.carries domain fingerprint) :
    streakStart domain fingerprint (run ++ [snapshot]) = some ((streakStart domain fingerprint run).getD snapshot.timestamp) := by
  rw [streakStart, List.reverse_append, List.reverse_singleton, List.singleton_append, List.takeWhile_cons_of_pos h,
    List.getLast?_cons, streakStart]
  cases (run.reverse.takeWhile (Snapshot.carries domain fingerprint)).getLast? <;> rfl

theorem streakStart_eq_none {fingerprint : String}
    (h : ∀ incident, current domain run = some incident → incident.fingerprint ≠ fingerprint) : streakStart domain fingerprint run = none := by
  rcases List.eq_nil_or_concat run with rfl | ⟨before, last, rfl⟩
  · rfl
  · rw [List.concat_eq_append] at h ⊢
    rw [current_snoc] at h
    have hneg : ¬ last.carries domain fingerprint := by
      rw [Snapshot.carries, Option.any_eq_true]
      rintro ⟨incident, hs, heq⟩
      exact h incident hs (of_decide_eq_true heq)
    rw [streakStart, List.reverse_append, List.reverse_singleton, List.singleton_append, List.takeWhile_cons_of_neg hneg]
    rfl

/-- The unresolved incidents of the domain are the incident of the last snapshot, with the time at which its streak began. -/
def Tracked (domain : Domain) (run : List Snapshot) (history : List Record) : Prop :=
  match current domain run with
  | none => history.filter (Record.unresolved domain) = []
  | some incident => ∃ r, history.filter (Record.unresolved domain) = [r] ∧ r.fingerprint = incident.fingerprint ∧
      r.severity = incident.severity ∧ streakStart domain incident.fingerprint run = some r.openedAt

theorem Tracked.of_none (h : Tracked domain run history) (hcurrent : current domain run = none) :
    history.filter (Record.unresolved domain) = [] := by
  rwa [Tracked, hcurrent] at h

theorem Tracked.of_some (h : Tracked domain run history) {incident : Incident} (hcurrent : current domain run = some incident) :
    ∃ r, history.filter (Record.unresolved domain) = [r] ∧ r.fingerprint = incident.fingerprint ∧ r.severity = incident.severity ∧
      streakStart domain incident.fingerprint run = some r.openedAt := by
  rwa [Tracked, hcurrent] at h

theorem Tracked.length_le (h : Tracked domain run history) : (history.filter (Record.unresolved domain)).length ≤ 1 := by
  cases hcurrent : current domain run with
  | none => simp [h.of_none hcurrent]
  | some incident =>
    obtain ⟨r, hr, _⟩ := h.of_some hcurrent
    simp [hr]

theorem tracks_iff (hlength : history.length ≤ maxHistory) : Tracks domain run history ↔ Tracked domain run history := by
  have hactive : activeIncidentsByDomain history domain = (history.filter (Record.unresolved domain)).getLast? := by
    rw [activeIncidentsByDomain, keepLast_of_length_le hlength, lastActive_eq]
  constructor
  · rintro ⟨hpresent, hcarries, hsingle⟩
    rw [hactive] at hpresent hcarries
    rw [Tracked]
    match hl : history.filter (Record.unresolved domain), hsingle with
    | [], _ =>
      rw [hl] at hpresent
      cases hcurrent : current domain run with
      | none => rfl
      | some incident => simp [hcurrent] at hpresent
    | [r], _ =>
      rw [hl] at hpresent hcarries
      cases hcurrent : current domain run with
      | none => simp [hcurrent] at hpresent
      | some incident => exact ⟨r, rfl, hcarries r incident rfl hcurrent⟩
    | _ :: _ :: _, hsingle => simp at hsingle
  · intro h
    cases hcurrent : current domain run with
    | none =>
      have hnil := h.of_none hcurrent
      rw [hnil] at hactive
      exact ⟨by rw [hactive, hcurrent]; rfl, by simp [hactive], by simp [hnil]⟩
    | some incident =>
      obtain ⟨r, hr, hfields⟩ := h.of_some hcurrent
      rw [hr] at hactive
      refine ⟨by rw [hactive, hcurrent]; rfl, fun active i ha hi => ?_, by simp [hr]⟩
      cases hactive.symm.trans ha
      cases hcurrent.symm.trans hi
      exact hfields

/-- Where the snapshots so far are tracked, the next one is tracked for a domain exactly if it pushes out no incident of the domain that
it continues. -/
theorem tracked_step (hlength : history.length ≤ maxHistory) (h : ∀ domain, Tracked domain run history) :
    Tracked domain (run ++ [snapshot]) (applyDomainIncidents history snapshot) ↔
      ∀ r ∈ pushedOut snapshot history, Record.unresolved domain r → snapshot.carries domain r.fingerprint = false := by
  have hsplit : (pushedOut snapshot history).filter (Record.unresolved domain) ++
      (history.drop (history.length + (Domain.all.filterMap (opens snapshot history)).length - maxHistory)).filter
        (Record.unresolved domain) = history.filter (Record.unresolved domain) := by
    rw [pushedOut, ← List.filter_append, List.take_append_drop]
  have hview : (applyDomainIncidents history snapshot).filter (Record.unresolved domain) =
      (((history.drop (history.length + (Domain.all.filterMap (opens snapshot history)).length - maxHistory)).filter
        (Record.unresolved domain)).filter fun r => snapshot.carries domain r.fingerprint).map (settle snapshot) ++
        (opens snapshot history domain).toList := by
    rw [applyDomainIncidents_eq hlength fun d => (h d).length_le, List.filter_append, filter_map_settle, filter_opened]
  have hout : (∀ r ∈ pushedOut snapshot history, Record.unresolved domain r → snapshot.carries domain r.fingerprint = false) ↔
      ∀ r ∈ (pushedOut snapshot history).filter (Record.unresolved domain), snapshot.carries domain r.fingerprint = false :=
    ⟨fun hall r hr => hall r (List.mem_filter.mp hr).1 (List.mem_filter.mp hr).2,
      fun hall r hr hu => hall r (List.mem_filter.mpr ⟨hr, hu⟩)⟩
  rw [hout]
  generalize (pushedOut snapshot history).filter (Record.unresolved domain) = lost at hsplit ⊢
  generalize (history.drop _).filter (Record.unresolved domain) = kept at hsplit hview
  cases hs : snapshot.incidents domain with
  | none =>
    -- Without an incident nothing is continued and nothing opened.
    have hcarries : ∀ fingerprint, snapshot.carries domain fingerprint = false := by simp [Snapshot.carries, hs]
    rw [opens, hs] at hview
    simp [hcarries] at hview
    rw [Tracked, current_snoc, hs]
    exact ⟨fun _ r _ => hcarries _, fun _ => by simpa using hview⟩
  | some incident =>
    have hcarries : ∀ fingerprint, snapshot.carries domain fingerprint = decide (incident.fingerprint = fingerprint) := by
      simp [Snapshot.carries, hs]
    have hstart := @streakStart_snoc snapshot domain run incident.fingerprint (by simp [hcarries])
    -- A fingerprint that the run does not end with opens an incident.
    have hopen : (∀ last, current domain run = some last → last.fingerprint ≠ incident.fingerprint) →
        (∀ r ∈ lost ++ kept, r.fingerprint ≠ incident.fingerprint) →
        lastActive history domain = (lost ++ kept).getLast? →
        (Tracked domain (run ++ [snapshot]) (applyDomainIncidents history snapshot) ↔
          ∀ r ∈ lost, snapshot.carries domain r.fingerprint = false) := by
      intro hnew hrecords hlast
      have hopens : opens snapshot history domain = some (Record.ofIncident domain incident snapshot.timestamp) := by
        rw [opens, hs, hlast, Option.bind_some, if_neg]
        rw [Option.any_eq_true]
        rintro ⟨r, hr, heq⟩
        exact hrecords r (List.mem_of_getLast? hr) (of_decide_eq_true heq)
      have hkept : kept.filter (fun r => snapshot.carries domain r.fingerprint) = [] := by
        rw [List.filter_eq_nil_iff]
        intro r hr
        rw [hcarries, decide_eq_true_eq]
        exact fun heq => hrecords r (List.mem_append_right _ hr) heq.symm
      rw [hopens, hkept] at hview
      rw [streakStart_eq_none hnew] at hstart
      refine iff_of_true ?_ fun r hr => ?_
      · rw [Tracked, current_snoc, hs]
        exact ⟨_, hview, rfl, rfl, hstart⟩
      · rw [hcarries, decide_eq_false_iff_not]
        exact fun heq => hrecords r (List.mem_append_left _ hr) heq.symm
    have hlast : lastActive history domain = (lost ++ kept).getLast? := by rw [lastActive_eq, hsplit]
    cases hcurrent : current domain run with
    | none =>
      have hnil : lost ++ kept = [] := hsplit.trans ((h domain).of_none hcurrent)
      exact hopen (fun last hl => absurd (hcurrent.symm.trans hl) (by simp)) (by simp [hnil]) hlast
    | some last =>
      obtain ⟨r, hr, hfingerprint, hseverity, hopened⟩ := (h domain).of_some hcurrent
      have hone : lost ++ kept = [r] := hsplit.trans hr
      by_cases hsame : last.fingerprint = incident.fingerprint
      · rw [hsame] at hfingerprint hopened
        have hopens : opens snapshot history domain = none := by
          rw [opens, hs, hlast, hone]
          simp [hfingerprint]
        rw [hopens, Option.toList_none, List.append_nil] at hview
        have hr' : snapshot.carries domain r.fingerprint = true := by simp [hcarries, hfingerprint]
        cases lost with
        | nil =>
          rw [List.nil_append] at hone
          have hkept : [r].filter (fun r => snapshot.carries domain r.fingerprint) = [r] := by simp [hr']
          rw [hone, hkept, List.map_singleton] at hview
          have hu : Record.unresolved domain r := (List.mem_filter.mp (hr ▸ List.mem_singleton_self r)).2
          have hstatus : r.status ≠ .resolved := by
            simp only [Record.unresolved, Bool.and_eq_true, decide_eq_true_eq] at hu
            exact hu.2
          have hsettle : settle snapshot r = r.refresh incident.severity snapshot.timestamp := by
            rw [settle, if_neg hstatus, touch, domain_of_unresolved hu, hs]
            exact if_pos hfingerprint
          rw [hopened] at hstart
          refine iff_of_true ?_ (by simp)
          rw [Tracked, current_snoc, hs]
          exact ⟨_, hview, by rw [hsettle]; exact hfingerprint, by rw [hsettle]; rfl, by rw [hsettle]; exact hstart⟩
        | cons x rest =>
          -- The incident that goes on is pushed out.
          obtain ⟨rfl, hrest⟩ := List.cons.inj hone
          obtain ⟨rfl, rfl⟩ := List.append_eq_nil_iff.mp hrest
          refine iff_of_false ?_ fun hall => ?_
          · rw [Tracked, current_snoc, hs]
            rintro ⟨y, hy, _⟩
            rw [hview] at hy
            simp at hy
          · have hfalse := hall x (List.mem_singleton_self x)
            rw [hr'] at hfalse
            cases hfalse
      · refine hopen (fun i hi => ?_) (fun x hx => ?_) hlast
        · cases hcurrent.symm.trans hi
          exact hsame
        · rw [hone, List.mem_singleton] at hx
          rw [hx, hfingerprint]
          exact hsame

theorem keepsActive_iff (snapshot : Snapshot) (history : List Record) :
    KeepsActive history snapshot ↔
      ∀ domain, ∀ r ∈ pushedOut snapshot history, Record.unresolved domain r → snapshot.carries domain r.fingerprint = false := by
  constructor
  · intro h domain r hr hu
    have hdomain := domain_of_unresolved hu
    simp only [Record.unresolved, Bool.and_eq_true, decide_eq_true_eq] at hu
    rcases h r hr with hresolved | hcarries
    · exact absurd hresolved hu.2
    · rwa [hdomain] at hcarries
  · intro h r hr
    by_cases hresolved : r.status = .resolved
    · exact Or.inl hresolved
    · exact Or.inr (h r.domain r hr (by simp [Record.unresolved, hresolved]))

theorem historyOf_snoc (run : List Snapshot) (snapshot : Snapshot) :
    historyOf (run ++ [snapshot]) = applyDomainIncidents (historyOf run) snapshot := by
  rw [historyOf, List.foldl_append, List.foldl_cons, List.foldl_nil, historyOf]

theorem length_historyOf_le (run : List Snapshot) : (historyOf run).length ≤ maxHistory := by
  rcases List.eq_nil_or_concat run with rfl | ⟨before, last, rfl⟩
  · exact Nat.zero_le _
  · rw [List.concat_eq_append, historyOf_snoc]
    exact length_keepLast_le _

theorem tracked_nil (domain : Domain) : Tracked domain [] (historyOf []) := by
  rw [Tracked]
  rfl

/-- The history tracks the snapshots in every state of a run exactly if no step of the run pushes out an incident that goes on. -/
theorem run_tracks_iff (run : List Snapshot) :
    (∀ before, before <+: run → ∀ domain, Tracks domain before (historyOf before)) ↔
      ∀ before snapshot, before ++ [snapshot] <+: run → KeepsActive (historyOf before) snapshot := by
  constructor
  · intro h before snapshot hprefix
    rw [keepsActive_iff]
    intro domain
    have hbefore := h before ((List.prefix_append before [snapshot]).trans hprefix)
    have hafter := h _ hprefix domain
    rw [tracks_iff (length_historyOf_le _), historyOf_snoc] at hafter
    exact (tracked_step (length_historyOf_le before) fun d => (tracks_iff (length_historyOf_le before)).mp (hbefore d)).mp hafter
  · intro h before
    induction before using List.reverseRecOn with
    | nil => exact fun _ domain => (tracks_iff (length_historyOf_le [])).mpr (tracked_nil domain)
    | append_singleton before snapshot ih =>
      intro hprefix domain
      have hbefore := ih ((List.prefix_append before [snapshot]).trans hprefix)
      rw [tracks_iff (length_historyOf_le _), historyOf_snoc]
      exact (tracked_step (length_historyOf_le before) fun d => (tracks_iff (length_historyOf_le before)).mp (hbefore d)).mpr
        ((keepsActive_iff snapshot _).mp (h before snapshot hprefix) domain)

/-! ## A quiet domain beside one that flaps -/

def quietIncident : Incident := { fingerprint := "aaa", dedupeKey := "operational:workload:aaa", severity := "degraded" }

def flappingIncident (n : Nat) : Incident :=
  if n % 2 = 0 then { fingerprint := "bbb", dedupeKey := "operational:control_plane:bbb", severity := "degraded" }
  else { fingerprint := "ccc", dedupeKey := "operational:control_plane:ccc", severity := "critical" }

def flap (n : Nat) : Snapshot where
  timestamp := "2026-09-15T12:00:00+00:00"
  incidents
    | .workload => some quietIncident
    | .controlPlane => some (flappingIncident n)
    | .observability => none

def flapping (n : Nat) : List Snapshot := (List.range n).map flap

theorem flapping_succ (n : Nat) : flapping (n + 1) = flapping n ++ [flap n] := by
  rw [flapping, List.range_succ, List.map_append, List.map_singleton, flapping]

theorem flappingIncident_ne (n : Nat) : (flappingIncident n).fingerprint ≠ (flappingIncident (n + 1)).fingerprint := by
  unfold flappingIncident
  rcases Nat.mod_two_eq_zero_or_one n with h | h
  · rw [if_pos h, if_neg (by omega)]
    decide
  · rw [if_neg (by omega), if_pos (by omega)]
    decide

theorem lastActive_of_tracked {incident : Incident} (h : Tracked domain run history) (hcurrent : current domain run = some incident) :
    ∃ r, lastActive history domain = some r ∧ r.fingerprint = incident.fingerprint := by
  obtain ⟨r, hr, hfingerprint, _⟩ := h.of_some hcurrent
  exact ⟨r, by rw [lastActive_eq, hr]; rfl, hfingerprint⟩

/-- Each snapshot after the first opens an incident of the flapping domain only. -/
theorem opened_flap {n : Nat} (h : ∀ domain, Tracked domain (flapping (n + 1)) history) :
    Domain.all.filterMap (opens (flap (n + 1)) history) =
      [Record.ofIncident .controlPlane (flappingIncident (n + 1)) (flap (n + 1)).timestamp] := by
  obtain ⟨quiet, hquiet, hquietFingerprint⟩ := @lastActive_of_tracked _ _ _ quietIncident (h .workload)
    (by rw [flapping_succ, current_snoc]; rfl)
  obtain ⟨last, hlast, hlastFingerprint⟩ := @lastActive_of_tracked _ _ _ (flappingIncident n) (h .controlPlane)
    (by rw [flapping_succ, current_snoc]; rfl)
  have hworkload : opens (flap (n + 1)) history .workload = none := by
    simp [opens, flap, hquiet, hquietFingerprint]
  have hcontrol : opens (flap (n + 1)) history .controlPlane =
      some (Record.ofIncident .controlPlane (flappingIncident (n + 1)) (flap (n + 1)).timestamp) := by
    simp [opens, flap, hlast, hlastFingerprint, flappingIncident_ne n]
  have hobserve : opens (flap (n + 1)) history .observability = none := rfl
  simp [Domain.all, hworkload, hcontrol, hobserve]

theorem settle_quiet (n : Nat) (hu : Record.unresolved .workload r)
    (hfingerprint : r.fingerprint = quietIncident.fingerprint) : settle (flap n) r = r.refresh quietIncident.severity (flap n).timestamp := by
  have hdomain := domain_of_unresolved hu
  simp only [Record.unresolved, Bool.and_eq_true, decide_eq_true_eq] at hu
  rw [settle, if_neg hu.2, touch, hdomain]
  exact if_pos hfingerprint

/-- As long as the history holds everything, the quiet incident is its oldest record. -/
theorem historyOf_flapping (h : ∀ n, ∀ domain, Tracked domain (flapping n) (historyOf (flapping n))) {n : Nat} (hn : n < 999) :
    ∃ quiet rest, historyOf (flapping (n + 1)) = quiet :: rest ∧ rest.length = n + 1 ∧ Record.unresolved .workload quiet ∧
      quiet.fingerprint = quietIncident.fingerprint := by
  induction n with
  | zero => exact ⟨_, _, rfl, rfl, rfl, rfl⟩
  | succ n ih =>
    obtain ⟨quiet, rest, hhistory, hlength, hu, hfingerprint⟩ := ih (by omega)
    have hopened := opened_flap (h (n + 1))
    have hmax : maxHistory = 1000 := rfl
    have hdrop : (historyOf (flapping (n + 1))).length + 1 - maxHistory = 0 := by
      rw [hhistory, List.length_cons, hlength]
      omega
    have hnext := @applyDomainIncidents_eq (flap (n + 1)) _ (length_historyOf_le (flapping (n + 1)))
      fun d => (h (n + 1) d).length_le
    rw [hopened, List.length_singleton, hdrop, List.drop_zero, ← historyOf_snoc, ← flapping_succ, hhistory, List.map_cons,
      settle_quiet (n + 1) hu hfingerprint, List.cons_append] at hnext
    exact ⟨_, _, hnext, by simp [hlength], hu, hfingerprint⟩

/-- After a thousand snapshots the quiet incident, which every snapshot carries, is not in the history any more. -/
theorem quiet_incident_lost : ¬ ∀ run before : List Snapshot, before <+: run → ∀ domain, Tracks domain before (historyOf before) := by
  intro hall
  have h : ∀ n, ∀ domain, Tracked domain (flapping n) (historyOf (flapping n)) := fun n domain =>
    (tracks_iff (length_historyOf_le _)).mp (hall (flapping n) (flapping n) (List.prefix_refl _) domain)
  obtain ⟨n, hn⟩ : ∃ n, n = 998 := ⟨_, rfl⟩
  obtain ⟨quiet, rest, hhistory, hlength, hu, hfingerprint⟩ := historyOf_flapping h (n := n) (by omega)
  have hnext := h (n + 1 + 1) .workload
  rw [flapping_succ (n + 1), historyOf_snoc, tracked_step (length_historyOf_le (flapping (n + 1))) (h (n + 1))] at hnext
  have hout : quiet ∈ pushedOut (flap (n + 1)) (historyOf (flapping (n + 1))) := by
    rw [pushedOut, opened_flap (h (n + 1)), hhistory, List.length_cons, hlength, hn]
    exact List.mem_cons_self
  have hcarries : (flap (n + 1)).carries .workload quiet.fingerprint = true := by
    rw [hfingerprint]
    rfl
  exact absurd ((hnext quiet hout hu).symm.trans hcarries) (by decide)

end DomainIncidents

end XbowPerso
