import BridgeMcp.Output.Cache

/-!
Reading a cached output to its end, page after page, as the `ssh_output_fetch` tool's caller does:
start at offset 0 and continue at the end of the page just returned while it says there is more.
-/
namespace BridgeMcp.Output
open TextLib List

/-- The pages a caller collects, the `k`-th fetch asking at the instant `clock k` for `limit k`
bytes. `none` is an exhausted fuel or an id that is no longer served. -/
def collect (c : OutputCache) (id : Text) (clock limit : ℕ → ℕ) :
    ℕ → ℕ → ℕ → Except SlicePanic (Option (List FetchResult))
  | 0, _, _ => .ok none
  | fuel + 1, k, offset => do
      match ← c.fetch (clock k) id offset (limit k) with
      | none => return none
      | some r =>
        if r.hasMore then
          return (← collect c id clock limit fuel (k + 1) (r.offset + utf8Len r.text)).map (r :: ·)
        else return some [r]

theorem prefix_of_utf8Len_le {pre post pre' post' : Text} (h : pre ++ post = pre' ++ post')
    (hle : utf8Len pre ≤ utf8Len pre') : ∃ t, pre' = pre ++ t ∧ post = t ++ post' := by
  rcases append_eq_append_iff.mp h with ⟨t, hpre, hpost⟩ | ⟨t, hpre, hpost⟩
  · exact ⟨t, hpre, hpost⟩
  · subst hpre
    have ht : t = [] := by
      rw [← utf8Len_eq_zero]
      rw [utf8Len_append] at hle
      omega
    subst ht
    exact ⟨[], by simp, by simpa using hpost.symm⟩

theorem page_at_boundary (pre : Text) {post : Text} (hpost : post ≠ []) {limit : ℕ} (hlimit : 1 ≤ limit) :
    ∃ t u, post = t ++ u ∧ t ≠ [] ∧
      page (pre ++ post) (utf8Len pre) limit =
        .ok ⟨t, utf8Len (pre ++ post), utf8Len pre, decide (u ≠ [])⟩ := by
  have hpos : 0 < utf8Len post := Nat.pos_of_ne_zero fun h => hpost (utf8Len_eq_zero.mp h)
  have htotal := utf8Len_append pre post
  have hstart : ceilCharBoundary (pre ++ post) (utf8Len pre) = utf8Len pre :=
    ceilCharBoundary_of_boundary (by omega) (isCharBoundary_append pre post)
  have hend : min (utf8Len pre + limit) (utf8Len (pre ++ post)) ≤ utf8Len (pre ++ post) :=
    Nat.min_le_right _ _
  obtain ⟨hb, hge, hle⟩ := ceilCharBoundary_spec hend
  obtain ⟨pre', u, hsplit, hlen⟩ := isCharBoundary_iff.mp hb
  obtain ⟨t, rfl, rfl⟩ := prefix_of_utf8Len_le hsplit (by omega)
  have hne : t ≠ [] := by
    rintro rfl
    simp only [append_nil] at hlen
    omega
  have hstop : utf8Len (pre ++ t) = utf8Len pre + utf8Len t := utf8Len_append pre t
  refine ⟨t, u, rfl, hne, ?_⟩
  unfold page
  simp only [hstart]
  rw [if_neg (by omega), ← hlen, hstop, slice_append]
  simp only [Except.ok.injEq, FetchResult.mk.injEq, true_and]
  have hu := @utf8Len_eq_zero u
  simp only [utf8Len_append, decide_eq_decide, ne_eq, ← hu]
  omega

section
variable {c : OutputCache} {id : Text} {e : CacheEntry} {clock limit : ℕ → ℕ}

theorem fetch_live (hget : c.get id = some e) {now : ℕ} (hlive : e.live c.ttl now = true)
    (offset limit : ℕ) : c.fetch now id offset limit = (page e.output offset limit).map some := by
  simp [OutputCache.fetch, hget, hlive]

theorem collect_last {fuel k offset : ℕ} {r : FetchResult}
    (hfetch : c.fetch (clock k) id offset (limit k) = .ok (some r)) (hmore : r.hasMore = false) :
    collect c id clock limit (fuel + 1) k offset = .ok (some [r]) := by
  simp [collect, hfetch, hmore, bind, Except.bind, pure, Except.pure]

theorem collect_more {fuel k offset : ℕ} {r : FetchResult} {pages : List FetchResult}
    (hfetch : c.fetch (clock k) id offset (limit k) = .ok (some r)) (hmore : r.hasMore = true)
    (hrest : collect c id clock limit fuel (k + 1) (r.offset + utf8Len r.text) =
      .ok (some pages)) :
    collect c id clock limit (fuel + 1) k offset = .ok (some (r :: pages)) := by
  simp [collect, hfetch, hmore, hrest, bind, Except.bind, pure, Except.pure]

/-- What one page is, relative to the whole output. -/
def PageExact (output : Text) (r : FetchResult) : Prop :=
  r.text ≠ [] ∧ (r.hasMore = false ↔ r.offset + utf8Len r.text = utf8Len output)

/-- The induction is on the text still to be read, which every page shortens; the pages do not
depend on the fuel once it covers that text. -/
theorem collect_tail (hget : c.get id = some e)
    (hlive : ∀ k ≤ e.output.length, e.live c.ttl (clock k) = true)
    (hlimit : ∀ k, 1 ≤ limit k) (n : ℕ) :
    ∀ (pre post : Text) (k : ℕ), e.output = pre ++ post → k ≤ pre.length → post ≠ [] →
      post.length ≤ n →
      ∃ pages, (∀ fuel, post.length ≤ fuel →
          collect c id clock limit fuel k (utf8Len pre) = .ok (some pages)) ∧
        pages.flatMap FetchResult.text = post ∧ ∀ r ∈ pages, PageExact e.output r := by
  induction n with
  | zero =>
    intro pre post k _ _ hpost hn
    exact absurd (length_eq_zero_iff.mp (Nat.le_zero.mp hn)) hpost
  | succ n ih =>
    intro pre post k hout hk hpost hn
    obtain ⟨t, u, rfl, ht, hpage⟩ := page_at_boundary pre hpost (hlimit k)
    have htlen : 1 ≤ t.length := length_pos_iff.mpr ht
    have hfetch : c.fetch (clock k) id (utf8Len pre) (limit k) =
        .ok (some ⟨t, utf8Len (pre ++ (t ++ u)), utf8Len pre, decide (u ≠ [])⟩) := by
      have hnow := hlive k (by
        rw [hout, length_append]
        omega)
      rw [fetch_live hget hnow, hout, hpage]
      rfl
    simp only [length_append] at hn ⊢
    by_cases hu : u = []
    · -- The last page.
      subst hu
      refine ⟨[⟨t, utf8Len (pre ++ (t ++ [])), utf8Len pre, false⟩], ?_, by simp, ?_⟩
      · intro fuel hfuel
        obtain ⟨fuel, rfl⟩ : ∃ f, fuel = f + 1 := ⟨fuel - 1, by omega⟩
        exact collect_last hfetch rfl
      · intro r hr
        obtain rfl := mem_singleton.mp hr
        exact ⟨ht, by simp [hout]⟩
    · obtain ⟨pages, hcollect, htext, hexact⟩ :=
        ih (pre ++ t) u (k + 1) (by simp [hout]) (by rw [length_append]; omega) hu (by omega)
      have hupos : 0 < utf8Len u := Nat.pos_of_ne_zero fun h => hu (utf8Len_eq_zero.mp h)
      simp only [hu, ne_eq, not_false_eq_true, decide_true] at hfetch
      rw [utf8Len_append] at hcollect
      refine ⟨⟨t, utf8Len (pre ++ (t ++ u)), utf8Len pre, true⟩ :: pages, ?_, by simp [htext], ?_⟩
      · intro fuel hfuel
        obtain ⟨fuel, rfl⟩ : ∃ f, fuel = f + 1 := ⟨fuel - 1, by omega⟩
        exact collect_more hfetch rfl (hcollect fuel (by omega))
      · intro r hr
        rcases mem_cons.mp hr with rfl | later
        · refine ⟨ht, ?_⟩
          simp only [Bool.true_eq_false, hout, utf8Len_append, false_iff]
          omega
        · exact hexact r later

/-- Whatever the limits, reading a stored output from offset 0 ends after finitely many pages,
slices at boundaries only and tiles the output exactly; every page carries a character, the single
page of an empty output apart, and says there is no more exactly when it ends at the end. -/
theorem paging_exact (hget : c.get id = some e)
    (hlive : ∀ k ≤ e.output.length, e.live c.ttl (clock k) = true)
    (hlimit : ∀ k, 1 ≤ limit k) :
    ∃ pages, (∀ fuel, e.output.length < fuel →
        collect c id clock limit fuel 0 0 = .ok (some pages)) ∧
      pages.flatMap FetchResult.text = e.output ∧
      (∀ r ∈ pages, r.text ≠ [] ∨ (e.output = [] ∧ pages.length = 1)) ∧
      ∀ r ∈ pages, r.hasMore = false ↔ r.offset + utf8Len r.text = utf8Len e.output := by
  by_cases hempty : e.output = []
  · have hfetch : c.fetch (clock 0) id 0 (limit 0) = .ok (some ⟨[], 0, 0, false⟩) := by
      rw [fetch_live hget (hlive 0 (Nat.zero_le _)), hempty]
      rfl
    refine ⟨[⟨[], 0, 0, false⟩], ?_, by simp [hempty], by simp [hempty], by simp [hempty]⟩
    intro fuel hfuel
    obtain ⟨fuel, rfl⟩ : ∃ f, fuel = f + 1 := ⟨fuel - 1, by omega⟩
    exact collect_last hfetch rfl
  · obtain ⟨pages, hcollect, htext, hexact⟩ :=
      collect_tail hget hlive hlimit e.output.length [] e.output 0 rfl (Nat.le_refl 0) hempty
        (Nat.le_refl _)
    exact ⟨pages, fun fuel hfuel => hcollect fuel (Nat.le_of_lt hfuel), htext,
      fun r hr => .inl (hexact r hr).1, fun r hr => (hexact r hr).2⟩

end

theorem paging_exact_mixed_widths :
    ∃ pages, (∀ fuel, 4 < fuel →
        collect ((OutputCache.new 300 2).store 0 0 ['a', 'é', '€', '😀']).2 (outputId 0) (fun k => k)
          (fun k => if k = 0 then 3 else 1) fuel 0 0 = .ok (some pages)) ∧
      pages.flatMap FetchResult.text = ['a', 'é', '€', '😀'] ∧
      (∀ r ∈ pages, r.text ≠ [] ∨ (['a', 'é', '€', '😀'] = [] ∧ pages.length = 1)) ∧
      ∀ r ∈ pages, r.hasMore = false ↔
        r.offset + utf8Len r.text = utf8Len ['a', 'é', '€', '😀'] :=
  paging_exact (e := ⟨['a', 'é', '€', '😀'], 0⟩) (by decide) (by decide)
    (by intro k; split <;> omega)

/-- The stored empty string is served as one page without a character. -/
theorem paging_empty_page :
    ∃ pages, collect ((OutputCache.new 300 2).store 0 0 []).2 (outputId 0) (fun _ => 0) (fun _ => 1)
        1 0 0 = .ok (some pages) ∧ ¬ ∀ r ∈ pages, r.text ≠ [] :=
  ⟨[⟨[], 0, 0, false⟩], rfl, by simp⟩

end BridgeMcp.Output
