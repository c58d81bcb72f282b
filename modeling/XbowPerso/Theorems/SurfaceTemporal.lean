import XbowPerso.SurfaceTemporal

/-!
# Which nodes are classified

A node gets a class unless it was absent for long and then present in the last two campaigns or more, with a presence below one fifth.
What is present now is read off the campaign that comes last; that is not the selected one when another of the same time has a greater
identifier.
-/

namespace XbowPerso

namespace SurfaceTemporal

variable {limits : Limits} {store : Store} {campaign : Campaign} {key : Key}

/-! ## Histories with at most one change -/

theorem eq_replicate_of_transitions {b : Bool} {rest : List Bool} (h : transitions (b :: rest) = 0) :
    b :: rest = List.replicate (rest.length + 1) b := by
  induction rest generalizing b with
  | nil => rfl
  | cons c rest ih =>
    rw [transitions] at h
    have hsame : b = c := by
      by_contra hne
      rw [if_pos hne] at h
      omega
    subst hsame
    rw [List.length_cons, List.replicate_succ, ← ih (by omega)]

variable {presence : List Bool}

/-- A history that ends in presence and changes at most once is absence, and then presence. -/
theorem absent_then_present (hchanges : transitions presence ≤ 1) (hcurrent : current presence = true) :
    ∃ a b, presence = List.replicate a false ++ List.replicate b true := by
  induction presence with
  | nil => exact ⟨0, 0, rfl⟩
  | cons x rest ih =>
    cases rest with
    | nil =>
      have hx : x = true := hcurrent
      exact ⟨0, 1, by rw [hx]; rfl⟩
    | cons c rest =>
      have hrest : current (c :: rest) = true := by
        rw [← hcurrent, current, current, List.getLast?_cons_cons]
      rw [transitions] at hchanges
      cases x with
      | false =>
        obtain ⟨a, b, hab⟩ := ih (by omega) hrest
        exact ⟨a + 1, b, by rw [hab, List.replicate_succ, List.cons_append]⟩
      | true =>
        -- no change is left, so nothing is absent after a presence
        have hnone : transitions (c :: rest) = 0 ∨ c = true := by
          cases c with
          | false =>
            rw [if_pos (by decide)] at hchanges
            exact .inl (by omega)
          | true => exact .inr rfl
        rcases hnone with hnone | rfl
        · have hall := eq_replicate_of_transitions hnone
          have hc : c = true := by
            rw [hall, current, List.getLast?_replicate, if_neg (Nat.succ_ne_zero _)] at hrest
            exact hrest
          subst hc
          exact ⟨0, rest.length + 2, by rw [hall, List.replicate_succ (n := rest.length + 1)]; rfl⟩
        · obtain ⟨a, b, hab⟩ := ih (by omega) hrest
          cases a with
          | zero => exact ⟨0, b + 1, by rw [hab]; rfl⟩
          | succ a => exact absurd (List.cons.inj hab).1 (by decide)

theorem appearances_absent_present (a b : Nat) : appearances (List.replicate a false ++ List.replicate b true) = b := by
  rw [appearances, List.count_append, List.count_replicate, List.count_replicate_self]
  simp

theorem transitions_absent_present (a b : Nat) : transitions (List.replicate a false ++ List.replicate b true) ≤ 1 := by
  have hpresent : ∀ b, transitions (List.replicate b true) = 0 := by
    intro b
    induction b with
    | zero => rfl
    | succ b ih =>
      cases b with
      | zero => rfl
      | succ b => rw [List.replicate_succ, List.replicate_succ, transitions, if_neg (not_not.mpr rfl), ← List.replicate_succ, ih]
  induction a with
  | zero =>
    rw [List.replicate_zero, List.nil_append, hpresent]
    exact Nat.zero_le 1
  | succ a ih =>
    cases a with
    | zero =>
      cases b with
      | zero => exact Nat.zero_le 1
      | succ b =>
        show 1 + transitions (List.replicate (b + 1) true) ≤ 1
        rw [hpresent]
    | succ a =>
      rw [List.replicate_succ, List.replicate_succ, List.cons_append, List.cons_append, transitions, if_neg (not_not.mpr rfl),
        Nat.zero_add, ← List.cons_append, ← List.replicate_succ]
      exact ih

/-- Absence, and then presence in two campaigns or more that is less than one fifth. -/
def SparseTail (presence : List Bool) : Prop :=
  ∃ a b, ∃ h : 0 < a + b, presence = List.replicate a false ++ List.replicate b true ∧ 2 ≤ b ∧
    (Binary64.ofQuotient b h).lt oneFifth = true

theorem previous_eq (presence : List Bool) (x : Bool) : previous (presence ++ [x]) = current presence := by
  rw [previous, List.dropLast_concat]

theorem current_absent_present {a b : Nat} (hb : 0 < b) : current (List.replicate a false ++ List.replicate b true) = true := by
  obtain ⟨b, rfl⟩ := Nat.exists_eq_add_one.mpr hb
  rw [List.replicate_succ', ← List.append_assoc, current, List.getLast?_concat]
  rfl

theorem not_le_of_lt {x y : Binary64} (h : x.lt y = true) : y.le x = false := by
  rw [Bool.eq_false_iff]
  intro hle
  obtain ⟨a, b, ha, hb, hab⟩ := Binary64.lt_iff.mp h
  obtain ⟨b', a', hb', ha', hba⟩ := Binary64.le_iff.mp hle
  cases ha.symm.trans ha'
  cases hb.symm.trans hb'
  exact absurd hab (not_lt.mpr hba)

theorem oneFifth_le_fourFifths : oneFifth.le fourFifths = true := by decide +kernel

theorem ite_eq_iff_of_ne {c : Prop} [Decidable c] {a b d : Classification} (h : a ≠ d) :
    (if c then a else b) = d ↔ ¬ c ∧ b = d := by
  by_cases hc : c
  · rw [if_pos hc]
    exact ⟨fun heq => absurd heq h, fun hboth => absurd hc hboth.1⟩
  · rw [if_neg hc]
    exact ⟨fun heq => ⟨hc, heq⟩, fun hboth => hboth.2⟩

/-- A node has no class when every test fails. -/
theorem unknown_iff {n : Nat} (hn : 0 < n) (hlength : presence.length = n) :
    classification presence = .unknown ↔
      ¬ (current presence = true ∧ appearances presence = 1) ∧
      ¬ (current presence = true ∧ previous presence = false ∧ 0 < appearances presence.dropLast) ∧
      ¬ (current presence = false ∧ previous presence = true) ∧
      ¬ (2 ≤ transitions presence ∨ oneFifth.le (Binary64.ofQuotient (appearances presence) hn) = true ∧
        (Binary64.ofQuotient (appearances presence) hn).le fourFifths = true ∧ 1 < appearances presence) ∧
      ¬ (current presence = true ∧ fourFifths.le (Binary64.ofQuotient (appearances presence) hn) = true) ∧
      ¬ (current presence = false ∧ 0 < appearances presence) := by
  subst hlength
  rw [classification, dif_pos hn]
  rw [ite_eq_iff_of_ne (by decide), ite_eq_iff_of_ne (by decide), ite_eq_iff_of_ne (by decide), ite_eq_iff_of_ne (by decide),
    ite_eq_iff_of_ne (by decide), ite_eq_iff_of_ne (by decide), and_iff_left rfl]

/-- The last two campaigns of a sparse tail have the node, and they are too few. -/
theorem unknown_of_sparseTail (h : SparseTail presence) : classification presence = .unknown := by
  obtain ⟨a, b, hpos, rfl, hb, hlt⟩ := h
  have hlength : (List.replicate a false ++ List.replicate b true).length = a + b := by simp
  have hcurrent := current_absent_present (a := a) (b := b) (by omega)
  have hprevious : previous (List.replicate a false ++ List.replicate b true) = true := by
    obtain ⟨b', rfl⟩ := Nat.exists_eq_add_one.mpr (show 0 < b by omega)
    rw [List.replicate_succ', ← List.append_assoc, previous_eq]
    exact current_absent_present (by omega)
  have hlow : oneFifth.le (Binary64.ofQuotient b hpos) = false := not_le_of_lt hlt
  have hhigh : fourFifths.le (Binary64.ofQuotient b hpos) = false := by
    rw [Bool.eq_false_iff]
    intro hle
    rw [Binary64.le_trans oneFifth_le_fourFifths hle] at hlow
    cases hlow
  have htransitions := transitions_absent_present a b
  rw [unknown_iff hpos hlength, appearances_absent_present, hcurrent, hprevious, hlow, hhigh]
  simp
  omega

/-- The other histories of a node that is present somewhere have a class. -/
theorem classified_of_not_sparseTail (hseen : 0 < appearances presence) (h : ¬ SparseTail presence) :
    classification presence ≠ .unknown := by
  intro hunknown
  have hpos : 0 < presence.length := hseen.trans_le List.count_le_length
  obtain ⟨hnew, -, -, hmixed, hstable, hhistorical⟩ := (unknown_iff hpos rfl).mp hunknown
  -- the history ends in presence, or it would be historical
  have hcurrent : current presence = true := by
    by_contra hne
    exact hhistorical ⟨Bool.not_eq_true _ ▸ hne, hseen⟩
  have htwo : 2 ≤ appearances presence := by
    by_contra hlt
    exact hnew ⟨hcurrent, by omega⟩
  have hchanges : transitions presence ≤ 1 := by
    by_contra hgt
    exact hmixed (.inl (by omega))
  obtain ⟨a, b, rfl⟩ := absent_then_present hchanges hcurrent
  have hlength : (List.replicate a false ++ List.replicate b true).length = a + b := by simp
  rw [appearances_absent_present] at htwo
  have hsum : 0 < a + b := by omega
  obtain ⟨-, -, -, hmixed, hstable, -⟩ := (unknown_iff hsum hlength).mp hunknown
  rw [appearances_absent_present] at hmixed hstable
  refine h ⟨a, b, hsum, rfl, htwo, ?_⟩
  by_contra hnot
  have hlow := Binary64.le_of_not_lt (Binary64.ofQuotient_ne_nan 2 (by decide : 0 < 10)) (Binary64.ofQuotient_ne_nan b hsum)
    (Bool.not_eq_true _ ▸ hnot)
  have hhigh : (Binary64.ofQuotient b hsum).le fourFifths = false := by
    rw [Bool.eq_false_iff]
    exact fun hle => hmixed (.inr ⟨hlow, hle, by omega⟩)
  refine hstable ⟨hcurrent, Binary64.le_of_not_lt (Binary64.ofQuotient_ne_nan 8 (by decide : 0 < 10))
    (Binary64.ofQuotient_ne_nan b hsum) ?_⟩
  rw [Bool.eq_false_iff]
  intro hlt
  obtain ⟨x, y, hx, hy, hxy⟩ := Binary64.lt_iff.mp hlt
  rw [Binary64.le_iff.mpr ⟨x, y, hx, hy, hxy.le⟩] at hhigh
  cases hhigh

theorem unknown_iff_sparseTail (hseen : 0 < appearances presence) :
    classification presence = .unknown ↔ SparseTail presence :=
  ⟨fun h => by_contra fun hnot => classified_of_not_sparseTail hseen hnot h, unknown_of_sparseTail⟩

/-! ## The nodes -/

theorem mem_sortedKeys {keys : List Key} : key ∈ sortedKeys keys ↔ key ∈ keys := (List.perm_insertionSort _ _).mem_iff

theorem current_presenceOf (campaigns : List Campaign) :
    current (presenceOf store campaigns key) = true ↔ ∃ last, campaigns.getLast? = some last ∧ key ∈ store.surface last.id := by
  rw [current, presenceOf, List.getLast?_map]
  cases campaigns.getLast? with
  | none => simp
  | some last => simp

variable {campaigns : List Campaign}

theorem appearances_pos (h : ∃ c ∈ campaigns, key ∈ store.surface c.id) :
    0 < appearances (presenceOf store campaigns key) := by
  obtain ⟨c, hc, hkey⟩ := h
  exact List.count_pos_iff.mpr (List.mem_map.mpr ⟨c, hc, decide_eq_true hkey⟩)

/-- A campaign that is considered has the last place. -/
theorem exists_getLast {c : Campaign} (h : c ∈ campaigns) : ∃ last, campaigns.getLast? = some last := by
  cases hlast : campaigns.getLast? with
  | none =>
    rw [List.getLast?_eq_none_iff.mp hlast] at h
    exact absurd h List.not_mem_nil
  | some last => exact ⟨last, rfl⟩

/-- The node has a class, and is present now exactly when it is present in the selected campaign. -/
def Classified (store : Store) (campaign : Campaign) (key : Key) (profile : Profile) : Prop :=
  ∃ node ∈ profile.nodes, node.key = key ∧ node.classification ≠ .unknown ∧
    (node.presentNow = true ↔ key ∈ store.surface campaign.id)

/-- The campaign that comes last is the selected one, or has the node exactly when the selected one has it. -/
def LastAgrees (store : Store) (campaign : Campaign) (key : Key) (campaigns : List Campaign) : Prop :=
  ∀ last, campaigns.getLast? = some last →
    last.id = campaign.id ∨ (key ∈ store.surface last.id ↔ key ∈ store.surface campaign.id)

theorem build_eq (limits : Limits) (store : Store) {campaign : Campaign} {identity : String} (hid : campaign.id ≠ "")
    (hidentity : campaign.identity = some identity) :
    buildTemporalSurfaceProfile limits store campaign = .ok ⟨considered limits store campaign identity,
      (sortedKeys (universeOf limits store (considered limits store campaign identity))).map
        (nodeOf store (considered limits store campaign identity))⟩ := by
  rw [buildTemporalSurfaceProfile, if_neg hid, hidentity]

/-- What a profile says about a key is what the node of the key says. -/
theorem classified_nodes (campaigns : List Campaign) (keys : List Key) :
    Classified store campaign key ⟨campaigns, (sortedKeys keys).map (nodeOf store campaigns)⟩ ↔
      key ∈ keys ∧ classification (presenceOf store campaigns key) ≠ .unknown ∧
        (current (presenceOf store campaigns key) = true ↔ key ∈ store.surface campaign.id) := by
  constructor
  · rintro ⟨node, hnode, rfl, hclass, hnow⟩
    obtain ⟨key, hmem, rfl⟩ := List.mem_map.mp hnode
    exact ⟨mem_sortedKeys.mp hmem, hclass, hnow⟩
  · rintro ⟨hmem, hclass, hnow⟩
    exact ⟨nodeOf store campaigns key, List.mem_map.mpr ⟨key, mem_sortedKeys.mpr hmem, rfl⟩, rfl, hclass, hnow⟩

/-- What is present now is what the last campaign has. -/
theorem current_iff_lastAgrees {c : Campaign} (hc : c ∈ campaigns) :
    (current (presenceOf store campaigns key) = true ↔ key ∈ store.surface campaign.id) ↔ LastAgrees store campaign key campaigns := by
  obtain ⟨last, hlast⟩ := exists_getLast hc
  have hnow : current (presenceOf store campaigns key) = true ↔ key ∈ store.surface last.id := by
    refine (current_presenceOf campaigns).trans ⟨fun ⟨last', hlast', h⟩ => ?_, fun h => ⟨last, hlast, h⟩⟩
    rw [hlast] at hlast'
    rwa [Option.some.inj hlast']
  rw [hnow]
  constructor
  · intro h last' hlast'
    rw [hlast] at hlast'
    cases hlast'
    exact .inr h
  · intro h
    rcases h last hlast with hsame | hiff
    · rw [hsame]
    · exact hiff

/-- A node of the campaigns that are considered is classified accurately if and only if it is among the nodes that are kept, its history
is not a sparse tail, and the campaign that comes last agrees. -/
theorem classified_iff (limits : Limits) (store : Store) (campaign : Campaign) (identity : String) (key : Key)
    (hid : campaign.id ≠ "") (hidentity : campaign.identity = some identity)
    (hkey : ∃ c ∈ considered limits store campaign identity, key ∈ store.surface c.id) :
    (∃ profile, buildTemporalSurfaceProfile limits store campaign = .ok profile ∧ Classified store campaign key profile) ↔
      key ∈ universeOf limits store (considered limits store campaign identity) ∧
        ¬ SparseTail (presenceOf store (considered limits store campaign identity) key) ∧
        LastAgrees store campaign key (considered limits store campaign identity) := by
  obtain ⟨c, hc, -⟩ := id hkey
  rw [build_eq limits store hid hidentity, ← unknown_iff_sparseTail (appearances_pos hkey), ← current_iff_lastAgrees hc,
    ← classified_nodes]
  constructor
  · rintro ⟨profile, hprofile, hclassified⟩
    cases hprofile
    exact hclassified
  · exact fun hclassified => ⟨_, rfl, hclassified⟩

/-! ## Campaigns -/

def sampleLimits : Limits := ⟨50, 5000, by decide⟩

def endpointKey : Key := ("endpoint", "https://shop.example/cart")

def sampleCampaign (id createdAt : String) : Campaign := ⟨id, createdAt, some "shop"⟩

/-- Two campaigns; the endpoint is in both. -/
def pairStore : Store := ⟨[sampleCampaign "c-1" "2026-01-01", sampleCampaign "c-2" "2026-01-02"], fun _ => [endpointKey]⟩

theorem classified_iff_sample :
    ∃ profile, buildTemporalSurfaceProfile sampleLimits pairStore (sampleCampaign "c-2" "2026-01-02") = .ok profile ∧
      Classified pairStore (sampleCampaign "c-2" "2026-01-02") endpointKey profile := by
  refine (classified_iff sampleLimits pairStore _ "shop" endpointKey (by decide) rfl ?_).mpr ⟨?_, ?_, ?_⟩
  · exact ⟨sampleCampaign "c-2" "2026-01-02", by decide +kernel, by decide⟩
  · decide +kernel
  · rw [← unknown_iff_sparseTail (by decide +kernel)]
    decide +kernel
  · exact fun last _ => .inr Iff.rfl

/-- Eleven campaigns; the endpoint is in the last two. -/
def tailStore : Store where
  campaigns := (List.range 11).map fun n => sampleCampaign ("c-" ++ String.ofList (Nat.toDigits 10 (n + 10))) "2026-01-01"
  surface id := if id = "c-19" ∨ id = "c-20" then [endpointKey] else []

/-- Two campaigns of the same time; the endpoint is in the first one. -/
def tieStore : Store where
  campaigns := [sampleCampaign "c-1" "2026-01-01", sampleCampaign "c-2" "2026-01-01"]
  surface id := if id = "c-1" then [endpointKey] else []

theorem build_shop (store : Store) (id createdAt : String) (hid : id ≠ "") :
    buildTemporalSurfaceProfile sampleLimits store (sampleCampaign id createdAt) =
      .ok ⟨considered sampleLimits store (sampleCampaign id createdAt) "shop",
        (sortedKeys (universeOf sampleLimits store (considered sampleLimits store (sampleCampaign id createdAt) "shop"))).map
          (nodeOf store (considered sampleLimits store (sampleCampaign id createdAt) "shop"))⟩ :=
  build_eq sampleLimits store hid rfl

/-- An endpoint that came back for good is unknown, and one of the selected campaign is not present now when another campaign has the
same time. -/
theorem present_endpoints_missed :
    (¬ ∃ profile, buildTemporalSurfaceProfile sampleLimits tailStore (sampleCampaign "c-20" "2026-01-01") = .ok profile ∧
        Classified tailStore (sampleCampaign "c-20" "2026-01-01") endpointKey profile) ∧
      ¬ ∃ profile, buildTemporalSurfaceProfile sampleLimits tieStore (sampleCampaign "c-1" "2026-01-01") = .ok profile ∧
        Classified tieStore (sampleCampaign "c-1" "2026-01-01") endpointKey profile := by
  constructor
  · rintro ⟨profile, hprofile, hclassified⟩
    rw [build_shop _ _ _ (by decide)] at hprofile
    cases hprofile
    exact ((classified_nodes _ _).mp hclassified).2.1 (by decide +kernel)
  · rintro ⟨profile, hprofile, hclassified⟩
    rw [build_shop _ _ _ (by decide)] at hprofile
    cases hprofile
    have hnow := ((classified_nodes _ _).mp hclassified).2.2.mpr (by decide)
    exact absurd hnow (by decide +kernel)

end SurfaceTemporal

end XbowPerso
