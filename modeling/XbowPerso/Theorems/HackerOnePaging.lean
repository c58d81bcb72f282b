import Mathlib.Data.List.GetD
import XbowPerso.Lib.PairedLists
import XbowPerso.HackerOnePaging
import XbowPerso.Theorems.ScopeImport

/-!
# When paging is complete

The loop returns the pages up to the first short one, or up to its bound. So it returns a collection whole when nothing comes after a
short page or after the bound, and then alone. A snapshot is never cut by the bound, because the import refuses as many assets.
-/

namespace XbowPerso

namespace HackerOnePaging

open HackerOneScope (ScopeEnv Asset readAsset compatibleHostPattern documentResources importStructuredScope preview mem_deniedTargets
  mem_statuses get)

variable {client : Client} {path : String} {query : Query} {pageSize : Nat} {pages : List (List Json)}

/-! ## Pages, taken and left -/

/-- How many pages a loop that may ask for some number of them has taken: the ones before the last are full, and it has asked for all
that it may, or the last is short. -/
structure Taken (pageSize : Nat) (pages : List (List Json)) (start left n : Nat) : Prop where
  bound : n ≤ left
  full : ∀ j, start ≤ j → j + 1 < start + n → pageSize ≤ (pages.getD j []).length
  stop : (n = left ∧ ∀ j, start ≤ j → j < start + n → pageSize ≤ (pages.getD j []).length) ∨
    ∃ last, start + n = last + 1 ∧ (pages.getD last []).length < pageSize

theorem take_drop_succ (pages : List (List Json)) (start n : Nat) :
    ((pages.drop start).take (n + 1)).flatten = pages.getD start [] ++ ((pages.drop (start + 1)).take n).flatten := by
  by_cases h : start < pages.length
  · rw [List.drop_eq_getElem_cons h, List.take_succ_cons, List.flatten_cons, List.getD_eq_getElem _ _ h]
  · have hle : pages.length ≤ start := Nat.le_of_not_lt h
    rw [List.drop_eq_nil_of_le hle, List.drop_eq_nil_of_le (Nat.le_succ_of_le hle), List.getD_eq_default _ _ hle]
    simp

theorem data_of_pageData {document : List (String × Json)} {data : List Json} (h : pageData document = .ok data) :
    get document "data" = .arr data := by
  unfold pageData at h
  split at h
  · rename_i found hfound
    split at h
    · cases h
    cases h
    exact hfound
  · cases h

/-- What the loop returns. -/
theorem collect_spec (hserves : Serves client path query pageSize pages) {left start : Nat} {items result : List Json}
    (h : collect client path query pageSize left (start + 1) items = .ok result) :
    ∃ n, Taken pageSize pages start left n ∧ result = items ++ ((pages.drop start).take n).flatten := by
  induction left generalizing start items with
  | zero =>
    cases h
    exact ⟨0, ⟨Nat.le_refl 0, fun j hj hlt => by omega, .inl ⟨rfl, fun j hj hlt => by omega⟩⟩, by simp⟩
  | succ left ih =>
    unfold collect at h
    split at h
    · cases h
    rename_i document hdocument
    split at h
    · cases h
    rename_i data hdata
    have hpage : data = pages.getD start [] :=
      Json.arr.inj ((data_of_pageData hdata).symm.trans (hserves (start + 1) document (Nat.le_add_left 1 start) hdocument))
    subst hpage
    split at h
    · rename_i hshort
      cases h
      refine ⟨1, ⟨Nat.succ_le_succ (Nat.zero_le left), fun j hj hlt => by omega, .inr ⟨start, rfl, hshort⟩⟩, ?_⟩
      rw [take_drop_succ, List.take_zero, List.flatten_nil, List.append_nil]
    · rename_i hfull
      obtain ⟨n, htaken, rfl⟩ := ih h
      have hstart : ∀ {j : Nat}, start ≤ j → ¬ start + 1 ≤ j → pageSize ≤ (pages.getD j []).length := by
        intro j hj hlt
        have heq : j = start := by omega
        rw [heq]
        exact Nat.le_of_not_lt hfull
      refine ⟨n + 1, ⟨Nat.succ_le_succ htaken.bound, fun j hj hlt => ?_, ?_⟩, ?_⟩
      · by_cases hnext : start + 1 ≤ j
        · exact htaken.full j hnext (by omega)
        · exact hstart hj hnext
      · rcases htaken.stop with ⟨hn, hall⟩ | ⟨last, hlast, hshort⟩
        · refine .inl ⟨congrArg (· + 1) hn, fun j hj hlt => ?_⟩
          by_cases hnext : start + 1 ≤ j
          · exact hall j hnext (by omega)
          · exact hstart hj hnext
        · exact .inr ⟨last, by omega, hshort⟩
      · rw [take_drop_succ, List.append_assoc]

/-- A part of a list from its front has everything exactly when nothing is left. -/
theorem perm_take_iff (pages : List (List Json)) (n : Nat) :
    (pages.take n).flatten.Perm pages.flatten ↔ ∀ i page, pages[i]? = some page → page ≠ [] → i < n := by
  have hsplit : pages.flatten = (pages.take n).flatten ++ (pages.drop n).flatten := by
    rw [← List.flatten_append, List.take_append_drop]
  constructor
  · intro hperm i page hpage hne
    by_contra hlt
    have hlength := hperm.length_eq
    rw [hsplit, List.length_append] at hlength
    have hnil : (pages.drop n).flatten = [] := List.eq_nil_of_length_eq_zero (by omega)
    refine hne (List.flatten_eq_nil_iff.mp hnil page (List.mem_of_getElem? (i := i - n) ?_))
    rw [List.getElem?_drop, Nat.add_sub_cancel' (Nat.le_of_not_lt hlt)]
    exact hpage
  · intro hall
    have hnil : (pages.drop n).flatten = [] := by
      refine List.flatten_eq_nil_iff.mpr fun page hpage => ?_
      by_contra hne
      obtain ⟨i, hi⟩ := List.mem_iff_getElem?.mp hpage
      rw [List.getElem?_drop] at hi
      exact absurd (hall (n + i) page hi hne) (by omega)
    rw [hsplit, hnil, List.append_nil]

/-- The pages that were taken have everything exactly when nothing comes after a short one or after the bound. -/
theorem perm_of_taken {left n : Nat} (h : Taken pageSize pages 0 left n) :
    (pages.take n).flatten.Perm pages.flatten ↔ Exhaustible left pageSize pages := by
  rw [perm_take_iff]
  constructor
  · intro hall
    refine ⟨fun i page hpage hne j hj => ?_, fun i page hpage hne => Nat.lt_of_lt_of_le (hall i page hpage hne) h.bound⟩
    have hi := hall i page hpage hne
    exact h.full j (Nat.zero_le j) (by omega)
  · rintro ⟨hfull, hbound⟩ i page hpage hne
    by_contra hlt
    rcases h.stop with ⟨rfl, -⟩ | ⟨last, hlast, hshort⟩
    · exact hlt (hbound i page hpage hne)
    · exact absurd (hfull i page hpage hne last (by omega)) (Nat.not_le.mpr hshort)

theorem taken_of_getAllPages {maxPages pageSize : Int} {items : List Json} (hserves : Serves client path query pageSize.toNat pages)
    (h : getAllPages client path query maxPages pageSize = .ok items) :
    ∃ n, Taken pageSize.toNat pages 0 maxPages.toNat n ∧ items = (pages.take n).flatten := by
  unfold getAllPages at h
  split at h
  · cases h
  split at h
  · cases h
  obtain ⟨n, htaken, hitems⟩ := collect_spec hserves h
  exact ⟨n, htaken, by rw [hitems, List.nil_append, List.drop_zero]⟩

/-! ## A snapshot -/

/-- What a snapshot was made from. -/
theorem scopes_of_fetch {env : ScopeEnv} {sha : Sha256} {handle : String} {snapshot : ProgramSnapshot}
    (h : fetchProgramSnapshot client env sha handle = .ok snapshot) :
    ∃ scopes, getAllPages client (scopesPath handle) .empty maxPagesLimit pageSizeLimit = .ok scopes ∧
      snapshot.document = scopeDocument (sortedResources scopes) ∧
        importStructuredScope env (scopeDocument (sortedResources scopes)) = .ok snapshot.preview := by
  unfold fetchProgramSnapshot at h
  split at h
  · cases h
  rename_i valid hvalid
  have hhandle : valid = handle := by
    unfold validateHandle at hvalid
    split at hvalid
    · cases hvalid
    split at hvalid
    · cases hvalid
    split at hvalid
    · cases hvalid
    cases hvalid
    rfl
  subst hhandle
  split at h
  · cases h
  split at h
  · cases h
  split at h
  · cases h
  rename_i scopes hscopes
  split at h
  · cases h
  unfold makeSnapshot at h
  split at h
  · cases h
  rename_i preview hpreview
  cases h
  exact ⟨scopes, hscopes, rfl, hpreview⟩

theorem perm_sortedResources (scopes : List Json) : (sortedResources scopes).Perm scopes := List.perm_insertionSort _ _

theorem documentResources_scopeDocument (purpose : String) (scopes : List Json) :
    documentResources purpose (scopeDocument scopes) = .ok scopes := rfl

/-- An import reads every resource, and no more than its limit. -/
theorem assets_of_import {env : ScopeEnv} {scopes : List Json} {result : HackerOneScope.ScopePreview}
    (h : importStructuredScope env (scopeDocument scopes) = .ok result) :
    scopes.length ≤ 5000 ∧ ∃ assets, scopes.mapM (readAsset env) = .ok assets ∧ result = preview env assets := by
  unfold importStructuredScope at h
  rw [documentResources_scopeDocument] at h
  dsimp only at h
  split at h
  · cases h
  rename_i hlength
  split at h
  · cases h
  rename_i assets hassets
  cases h
  exact ⟨Nat.le_of_not_lt hlength, assets, hassets, rfl⟩

/-- Full pages as many as the bound have more than the import takes. -/
theorem length_of_full {n k : Nat} (hfull : ∀ j < n, k ≤ (pages.getD j []).length) : n * k ≤ (pages.take n).flatten.length := by
  induction n generalizing pages with
  | zero => simp
  | succ n ih =>
    have hfront := take_drop_succ pages 0 n
    rw [List.drop_zero, Nat.zero_add, List.drop_one] at hfront
    rw [hfront, List.length_append, Nat.succ_mul, Nat.add_comm]
    refine Nat.add_le_add (hfull 0 (Nat.succ_pos n)) (ih fun j hj => ?_)
    have := hfull (j + 1) (Nat.succ_lt_succ hj)
    cases pages with
    | nil => simpa using this
    | cons page pages => simpa using this

/-! ## The pages of a remote side -/

/-- A remote side that has pages under every path, and the page of a program beside them. -/
def pagedClient (pages : List (List Json)) : Client where
  getJson _ query :=
    match query.get? "page[number]" with
    | some (.int number) => .ok [("data", .arr (pages.getD (number.toNat - 1) []))]
    | _ => .ok [("data", .obj [("attributes", .obj [("handle", .str "acme"), ("name", .str "Acme"), ("policy", .str "")])])]

theorem serves_pagedClient (pages : List (List Json)) : Serves (pagedClient pages) path query pageSize pages := by
  intro number document _ h
  have hnumber : (pageQuery query number pageSize).get? "page[number]" = some (.int number) := by
    unfold pageQuery
    rw [Dict.get?_set_of_ne (by decide), Dict.get?_set_self]
  unfold pagedClient at h
  dsimp only at h
  rw [hnumber] at h
  cases h
  rfl

/-- What the client gives of two pages when the first is short, and when the bound is one page. -/
theorem getAllPages_pagedClient (first second : List (String × Json)) :
    getAllPages (pagedClient [[.obj first], [.obj second]]) path query 100 100 = .ok [.obj first] ∧
      getAllPages (pagedClient [[.obj first], [.obj second]]) path query 1 1 = .ok [.obj first] := by
  have hget : ∀ size, (pagedClient [[.obj first], [.obj second]]).getJson path (pageQuery query 1 size) =
      .ok [("data", .arr [.obj first])] := by
    intro size
    have hnumber : (pageQuery query 1 size).get? "page[number]" = some (.int 1) := by
      unfold pageQuery
      rw [Dict.get?_set_of_ne (by decide), Dict.get?_set_self]
      rfl
    unfold pagedClient
    dsimp only
    rw [hnumber]
    rfl
  constructor
  · change collect (pagedClient [[.obj first], [.obj second]]) path query 100 (99 + 1) 1 [] = .ok [.obj first]
    unfold collect
    rw [hget]
    rfl
  · change collect (pagedClient [[.obj first], [.obj second]]) path query 1 (0 + 1) 1 [] = .ok [.obj first]
    unfold collect
    rw [hget]
    rfl

/-- `get_all_pages` returns the collection whole exactly when no page that has something comes after a short one or after the bound. A
snapshot has all the scopes of its program exactly when none comes after a short page, and then denies every asset that is out of
scope. -/
theorem paging_complete (client : Client) (pages : List (List Json)) :
    (∀ (path : String) (query : Query) (maxPages pageSize : Int) (items : List Json),
      Serves client path query pageSize.toNat pages → getAllPages client path query maxPages pageSize = .ok items →
        (items.Perm pages.flatten ↔ Exhaustible maxPages.toNat pageSize.toNat pages)) ∧
    ∀ (env : ScopeEnv) (sha : Sha256) (handle : String) (snapshot : ProgramSnapshot),
      Serves client (scopesPath handle) .empty pageSizeLimit.toNat pages → fetchProgramSnapshot client env sha handle = .ok snapshot →
        ∃ scopes, snapshot.document = scopeDocument scopes ∧
          (scopes.Perm pages.flatten ↔ FullBefore pageSizeLimit.toNat pages) ∧
          (FullBefore pageSizeLimit.toNat pages → ∀ resource ∈ pages.flatten, ∀ asset pattern, readAsset env resource = .ok asset →
            asset.eligible = false → compatibleHostPattern env asset.assetType asset.identifier = .ok pattern →
              String.ofList pattern ∈ snapshot.preview.deniedTargets) := by
  refine ⟨fun path query maxPages pageSize items hserves h => ?_, fun env sha handle snapshot hserves h => ?_⟩
  · obtain ⟨n, htaken, rfl⟩ := taken_of_getAllPages hserves h
    exact perm_of_taken htaken
  · obtain ⟨scopes, hscopes, hdocument, himport⟩ := scopes_of_fetch h
    obtain ⟨n, htaken, hitems⟩ := taken_of_getAllPages hserves hscopes
    obtain ⟨hlength, assets, hassets, hpreview⟩ := assets_of_import himport
    have hsorted := perm_sortedResources scopes
    have hexhausted : Exhaustible maxPagesLimit.toNat pageSizeLimit.toNat pages ↔ FullBefore pageSizeLimit.toNat pages := by
      refine ⟨And.left, fun hfull => ⟨hfull, fun i page hpage hne => ?_⟩⟩
      by_contra hlt
      -- the first hundred pages would be full
      have hmany := length_of_full (n := n) fun j hj => hfull i page hpage hne j
        (by have := htaken.bound; omega)
      rw [← hitems, ← hsorted.length_eq] at hmany
      rcases htaken.stop with ⟨hn, -⟩ | ⟨last, hlast, hshort⟩
      · rw [hn] at hmany
        exact absurd (Nat.le_trans hmany hlength) (by decide)
      · exact absurd (hfull i page hpage hne last (by have := htaken.bound; omega)) (Nat.not_le.mpr hshort)
    have hperm : scopes.Perm pages.flatten ↔ FullBefore pageSizeLimit.toNat pages := by
      rw [← hexhausted, hitems]
      exact perm_of_taken htaken
    refine ⟨sortedResources scopes, hdocument, ⟨fun hall => hperm.mp (hsorted.symm.trans hall), fun hfull => hsorted.trans (hperm.mpr hfull)⟩,
      fun hfull resource hresource asset pattern hasset hdenied hpattern => ?_⟩
    have hmem : resource ∈ sortedResources scopes := hsorted.mem_iff.mpr ((hperm.mpr hfull).mem_iff.mpr hresource)
    rw [hpreview, mem_deniedTargets, mem_statuses]
    exact ⟨asset, PairedLists.mem_of_mapM_ok hassets hmem hasset, hdenied, pattern, hpattern, rfl⟩

/-- An eligible domain and one that is out of scope, each on a page of its own. -/
def samplePages : List (List Json) :=
  [[HackerOneScope.sampleResource "app.example.com" "Domain" true], [HackerOneScope.sampleResource "admin.example.com" "Domain" false]]

theorem sample_snapshot :
    (fetchProgramSnapshot (pagedClient samplePages) HackerOneScope.sampleScope ExecutionContract.samplePython.sha "acme").toOption.map
      (fun snapshot => snapshot.preview.deniedTargets) = some [] ∧
    (fetchProgramSnapshot (pagedClient [samplePages.flatten]) HackerOneScope.sampleScope ExecutionContract.samplePython.sha
      "acme").toOption.map (fun snapshot => snapshot.preview.deniedTargets) = some ["admin.example.com"] := by
  refine ⟨?_, ?_⟩
  · decide +kernel
  · decide +kernel

/-- Two pages of one item each: the second is lost, when a page may hold a hundred and when only one page is asked for. A snapshot does
not deny what is out of scope on it. -/
theorem second_page_lost :
    Serves (pagedClient samplePages) "hackers/programs" .empty 100 samplePages ∧
      (∃ items, getAllPages (pagedClient samplePages) "hackers/programs" .empty 100 100 = .ok items ∧ ¬ items.Perm samplePages.flatten) ∧
      (∃ items, getAllPages (pagedClient samplePages) "hackers/programs" .empty 1 1 = .ok items ∧ ¬ items.Perm samplePages.flatten) ∧
      ∃ snapshot, fetchProgramSnapshot (pagedClient samplePages) HackerOneScope.sampleScope ExecutionContract.samplePython.sha "acme" =
        .ok snapshot ∧ "admin.example.com" ∉ snapshot.preview.deniedTargets := by
  have hlost : ∀ first : Json, ¬ [first].Perm samplePages.flatten := fun first hperm => absurd hperm.length_eq (show (1 : Nat) ≠ 2 by decide)
  refine ⟨serves_pagedClient samplePages, ⟨_, (getAllPages_pagedClient _ _).1, hlost _⟩, ⟨_, (getAllPages_pagedClient _ _).2, hlost _⟩, ?_⟩
  have hdenied := sample_snapshot.1
  cases hfetch : fetchProgramSnapshot (pagedClient samplePages) HackerOneScope.sampleScope ExecutionContract.samplePython.sha "acme" with
  | error e =>
    rw [hfetch] at hdenied
    cases hdenied
  | ok snapshot =>
    rw [hfetch] at hdenied
    refine ⟨snapshot, rfl, ?_⟩
    rw [show snapshot.preview.deniedTargets = [] from Option.some.inj hdenied]
    exact List.not_mem_nil

/-- One page with both is returned whole, and a snapshot of it denies the domain that is out of scope. -/
theorem paging_complete_sample :
    (∀ items, getAllPages (pagedClient [samplePages.flatten]) "hackers/programs" .empty 100 100 = .ok items →
      items.Perm [samplePages.flatten].flatten) ∧
    ∃ snapshot scopes, fetchProgramSnapshot (pagedClient [samplePages.flatten]) HackerOneScope.sampleScope
      ExecutionContract.samplePython.sha "acme" = .ok snapshot ∧ snapshot.document = scopeDocument scopes ∧
        scopes.Perm [samplePages.flatten].flatten := by
  have hfull : ∀ size, FullBefore size [samplePages.flatten] := by
    intro size i page hpage _ j hj
    obtain rfl : i = 0 := by
      by_contra hne
      rw [List.getElem?_eq_none (by simp only [List.length_singleton]; omega)] at hpage
      cases hpage
    exact absurd hj (Nat.not_lt_zero j)
  have hbound : ∀ i page, [samplePages.flatten][i]? = some page → page ≠ [] → i < 100 := by
    intro i page hpage _
    have hlt := (List.getElem?_eq_some_iff.mp hpage).1
    simp only [List.length_singleton] at hlt
    omega
  refine ⟨fun items h => ((paging_complete _ _).1 _ _ 100 100 items (serves_pagedClient _) h).mpr ⟨hfull _, hbound⟩, ?_⟩
  have hdenied := sample_snapshot.2
  cases hfetch : fetchProgramSnapshot (pagedClient [samplePages.flatten]) HackerOneScope.sampleScope ExecutionContract.samplePython.sha
      "acme" with
  | error e =>
    rw [hfetch] at hdenied
    cases hdenied
  | ok snapshot =>
    obtain ⟨scopes, hdocument, hperm, -⟩ := (paging_complete _ [samplePages.flatten]).2 _ _ _ snapshot (serves_pagedClient _) hfetch
    exact ⟨snapshot, scopes, rfl, hdocument, hperm.mpr (hfull _)⟩

end HackerOnePaging

end XbowPerso
