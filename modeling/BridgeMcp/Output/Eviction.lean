import Mathlib.Tactic.NormNum
import Mathlib.Tactic.Ring
import Mathlib.Data.List.Nodup
import BridgeMcp.Output.Cache
import BridgeMcp.Lib.BoundedQueue

/-!
What the output cache holds after a run of `store` calls, compared with the bounded queue it is
meant to be.
-/
namespace BridgeMcp.Output
open TextLib List OutputCache

theorem digitChar_lt : ∀ a < 16, ∀ b < 16, Nat.digitChar a < Nat.digitChar b ↔ a < b := by
  decide

theorem digitChar_inj : ∀ a < 16, ∀ b < 16, Nat.digitChar a = Nat.digitChar b → a = b := by
  decide

theorem hexFixed_length (w n : ℕ) : (hexFixed w n).length = w := by
  induction w with
  | zero => rfl
  | succ w ih => simp [hexFixed, ih]

theorem hexFixed_add (w q n : ℕ) : hexFixed w (q * 16 ^ w + n) = hexFixed w n := by
  induction w generalizing q with
  | zero => rfl
  | succ w ih =>
    have hsplit : q * 16 ^ (w + 1) + n = (q * 16) * 16 ^ w + n := by ring
    have hdigit : ((q * 16) * 16 ^ w + n) / 16 ^ w % 16 = n / 16 ^ w % 16 := by
      rw [Nat.add_comm, Nat.add_mul_div_right _ _ (by positivity), Nat.add_mul_mod_self_right]
    rw [hexFixed, hexFixed, hsplit, hdigit, ih]

theorem hexFixed_lt {w a b : ℕ} (ha : a < 16 ^ w) (hb : b < 16 ^ w) :
    hexFixed w a < hexFixed w b ↔ a < b := by
  induction w generalizing a b with
  | zero =>
    simp only [pow_zero, Nat.lt_one_iff] at ha hb
    simp [ha, hb, hexFixed]
  | succ w ih =>
    have hpos : 0 < 16 ^ w := by positivity
    have hda : a / 16 ^ w < 16 := Nat.div_lt_of_lt_mul (by rwa [pow_succ] at ha)
    have hdb : b / 16 ^ w < 16 := Nat.div_lt_of_lt_mul (by rwa [pow_succ] at hb)
    have hra := Nat.mod_lt a hpos
    have hrb := Nat.mod_lt b hpos
    have hea := Nat.div_add_mod' a (16 ^ w)
    have heb := Nat.div_add_mod' b (16 ^ w)
    have hlow : ∀ n, hexFixed w n = hexFixed w (n % 16 ^ w) := by
      intro n
      conv_lhs => rw [← Nat.div_add_mod' n (16 ^ w)]
      exact hexFixed_add w _ _
    rw [hexFixed, hexFixed, cons_lt_cons_iff, Nat.mod_eq_of_lt hda, Nat.mod_eq_of_lt hdb,
      digitChar_lt _ hda _ hdb, hlow a, hlow b, ih hra hrb]
    constructor
    · rintro (hlt | ⟨heq, hlt⟩)
      · have := Nat.mul_le_mul_right (16 ^ w) (Nat.succ_le_of_lt hlt)
        rw [Nat.succ_mul] at this
        omega
      · rw [digitChar_inj _ hda _ hdb heq] at hea
        omega
    · intro hab
      rcases Nat.lt_or_ge (a / 16 ^ w) (b / 16 ^ w) with hlt | hge
      · exact .inl hlt
      · have heq : a / 16 ^ w = b / 16 ^ w := Nat.le_antisymm (Nat.div_le_div_right hab.le) hge
        refine .inr ⟨by rw [heq], ?_⟩
        rw [heq] at hea
        omega

theorem lt_hexWidth (n : ℕ) : n < 16 ^ hexWidth n := by
  have hlog : n < 2 ^ (n.log2 + 1) := Nat.lt_log2_self
  have hle : (2 : ℕ) ^ (n.log2 + 1) ≤ 2 ^ (4 * hexWidth n) := by
    apply Nat.pow_le_pow_right (by norm_num)
    unfold hexWidth
    omega
  calc n < 2 ^ (n.log2 + 1) := hlog
    _ ≤ 2 ^ (4 * hexWidth n) := hle
    _ = 16 ^ hexWidth n := by rw [pow_mul]; norm_num

variable {n ttl maxEntries k i : ℕ}

theorem outputId_lt {m : ℕ} (h : hexWidth m = hexWidth n) :
    outputId m < outputId n ↔ m < n := by
  have hm := lt_hexWidth m
  have hn := lt_hexWidth n
  rw [h] at hm
  unfold outputId
  rw [h]
  simp only [String.reduceToList, cons_append, nil_append, cons_lt_cons_iff,
    lt_irrefl, false_or, true_and]
  exact hexFixed_lt hm hn

theorem outputId_injective : Function.Injective outputId := by
  intro m n h
  have hw : hexWidth m = hexWidth n := by
    have hlen := congrArg length h
    simpa [outputId, hexFixed_length] using hlen
  rcases lt_trichotomy m n with hlt | heq | hgt
  · exact absurd h ((outputId_lt hw).mpr hlt).ne
  · exact heq
  · exact absurd h ((outputId_lt hw.symm).mpr hgt).ne'

theorem hexWidth_of_lt (h : n < 16 ^ 4) : hexWidth n = 4 := by
  unfold hexWidth
  rcases Nat.eq_zero_or_pos n with rfl | hpos
  · rfl
  · have hlog : n.log2 < 16 := (Nat.log2_lt hpos.ne').mpr (by simpa using h)
    omega

theorem leastKey_spec {ks : List Text} (h : ks ≠ []) :
    ∃ m ∈ ks, leastKey ks = some m ∧ ∀ k ∈ ks, m ≤ k := by
  induction ks with
  | nil => exact absurd rfl h
  | cons k ks ih =>
    rcases eq_or_ne ks [] with rfl | hne
    · exact ⟨k, by simp, rfl, by simp⟩
    · obtain ⟨m, hm, hleast, hle⟩ := ih hne
      by_cases hmk : m < k
      · refine ⟨m, mem_cons_of_mem k hm, by simp [leastKey, hleast, hmk], ?_⟩
        intro x hx
        rcases mem_cons.mp hx with rfl | later
        · exact hmk.le
        · exact hle x later
      · refine ⟨k, by simp, by simp [leastKey, hleast, hmk], ?_⟩
        intro x hx
        rcases mem_cons.mp hx with rfl | later
        · exact le_refl _
        · exact (not_lt.mp hmk).trans (hle x later)

structure StoreCall where
  now : ℕ
  created : ℕ
  output : Text
  deriving DecidableEq

def StoreCall.entry (s : StoreCall) : CacheEntry := ⟨s.output, s.created⟩

def OutputCache.storeAll (c : OutputCache) (calls : List StoreCall) : OutputCache :=
  calls.foldl (fun c s => (c.store s.now s.created s.output).2) c

theorem storeAll_concat (c : OutputCache) (calls : List StoreCall) (s : StoreCall) :
    c.storeAll (calls ++ [s]) = ((c.storeAll calls).store s.now s.created s.output).2 := by
  simp [storeAll]

theorem evict_eq (c : OutputCache) : c.evict = { c with entries := c.evict.entries } := by
  unfold evict
  split
  · split <;> rfl
  · rfl

@[simp] theorem store_counter (c : OutputCache) (now created : ℕ) (output : Text) :
    (c.store now created output).2.counter = (c.counter + 1) % 2 ^ 64 := by
  simp only [OutputCache.store, OutputCache.insert]
  rw [evict_eq]
  rfl

@[simp] theorem store_ttl (c : OutputCache) (now created : ℕ) (output : Text) :
    (c.store now created output).2.ttl = c.ttl := by
  simp only [OutputCache.store, OutputCache.insert]
  rw [evict_eq]
  rfl

@[simp] theorem store_maxEntries (c : OutputCache) (now created : ℕ) (output : Text) :
    (c.store now created output).2.maxEntries = c.maxEntries := by
  simp only [OutputCache.store, OutputCache.insert]
  rw [evict_eq]
  rfl

/-- The clock never goes back, within a call or from one call to the next. -/
def Timely (calls : List StoreCall) : Prop :=
  calls.Pairwise (fun a b => a.created ≤ b.now) ∧ ∀ s ∈ calls, s.now ≤ s.created

instance (calls : List StoreCall) : Decidable (Timely calls) :=
  inferInstanceAs (Decidable (_ ∧ _))

variable {calls : List StoreCall} {s : StoreCall}

theorem timely_concat :
    Timely (calls ++ [s]) ↔
      Timely calls ∧ (∀ a ∈ calls, a.created ≤ s.now) ∧ s.now ≤ s.created := by
  simp only [Timely, pairwise_append, pairwise_singleton, mem_singleton,
    mem_append, true_and, forall_eq]
  constructor
  · rintro ⟨⟨hp, hlast⟩, hle⟩
    exact ⟨⟨hp, fun a ha => hle a (.inl ha)⟩, hlast, hle s (.inr rfl)⟩
  · rintro ⟨⟨hp, hle⟩, hlast, hs⟩
    refine ⟨⟨hp, hlast⟩, ?_⟩
    rintro a (ha | rfl)
    · exact hle a ha
    · exact hs

def HoldsId (c : OutputCache) (n : ℕ) : Prop := outputId n ∈ c.entries.map Prod.fst

/-- A full cache's oldest entry, the one with the lowest counter value, has its least id. -/
def OldestIsLeast (c : OutputCache) : Prop :=
  c.maxEntries ≤ c.entries.length →
    ∀ m n, HoldsId c m → (∀ j < m, ¬ HoldsId c j) → HoldsId c n → outputId m ≤ outputId n

/-- Every call of the run finds the cache, after its lazy cleanup, with its oldest id least. -/
def EvictsOldest (c : OutputCache) (calls : List StoreCall) : Prop :=
  ∀ done s rest, calls = done ++ s :: rest → OldestIsLeast ((c.storeAll done).cleanup s.now)

/-- The history as the queue sees it: each stored entry with its counter value. -/
def indexed (calls : List StoreCall) : List (ℕ × CacheEntry) :=
  calls.zipIdx.map fun p => (p.2, p.1.entry)

def keyed (x : ℕ × CacheEntry) : Text × CacheEntry := (outputId x.1, x.2)

theorem indexed_concat (calls : List StoreCall) (s : StoreCall) :
    indexed (calls ++ [s]) = indexed calls ++ [(calls.length, s.entry)] := by
  simp [indexed, zipIdx_append]

theorem indexed_length (calls : List StoreCall) : (indexed calls).length = calls.length := by
  simp [indexed]

theorem indexed_getElem? (calls : List StoreCall) (i : ℕ) :
    (indexed calls)[i]? = calls[i]?.map fun s => (i, s.entry) := by
  simp [indexed, getElem?_zipIdx, Function.comp_def]

theorem mem_indexed {x : ℕ × CacheEntry} :
    x ∈ indexed calls ↔ ∃ s, calls[x.1]? = some s ∧ x.2 = s.entry := by
  rw [mem_iff_getElem?]
  simp only [indexed_getElem?, Option.map_eq_some_iff]
  constructor
  · rintro ⟨i, s, hs, rfl⟩
    exact ⟨s, hs, rfl⟩
  · rintro ⟨s, hs, hx⟩
    exact ⟨x.1, s, hs, by rw [← hx]⟩

theorem indexed_increasing (calls : List StoreCall) :
    (indexed calls).Pairwise fun x y => x.1 < y.1 := by
  induction calls using reverseRecOn with
  | nil => exact List.Pairwise.nil
  | append_singleton calls s ih =>
    rw [indexed_concat, pairwise_append]
    refine ⟨ih, pairwise_singleton _ _, ?_⟩
    intro x hx y hy
    obtain ⟨t, ht, -⟩ := mem_indexed.mp hx
    obtain rfl := mem_singleton.mp hy
    exact (List.getElem?_eq_some_iff.mp ht).1

variable {c : OutputCache} {q : List (ℕ × CacheEntry)}

theorem cleanup_keyed (h : c.entries = q.map keyed) (now : ℕ) :
    (c.cleanup now).entries = (q.filter fun x => x.2.live c.ttl now).map keyed := by
  simp [cleanup, h, filter_map, Function.comp_def, keyed]

theorem evict_keyed (h : c.entries = q.map keyed) (hcap : 1 ≤ c.maxEntries)
    (hinc : q.Pairwise fun x y => x.1 < y.1) (hold : OldestIsLeast c) :
    c.evict.entries = (if c.maxEntries ≤ q.length then q.tail else q).map keyed := by
  have hlen : c.entries.length = q.length := by simp [h]
  have hkeys : c.entries.map Prod.fst = q.map fun x => outputId x.1 := by
    simp [h, keyed, Function.comp_def]
  unfold evict
  rw [hlen]
  split
  · rename_i hfull
    cases q with
    | nil =>
      simp only [length_nil] at hfull
      omega
    | cons a q =>
      rw [pairwise_cons] at hinc
      have holds : ∀ n, HoldsId c n ↔ ∃ x ∈ a :: q, x.1 = n := by
        intro n
        rw [HoldsId, hkeys, mem_map]
        exact ⟨fun ⟨x, hx, he⟩ => ⟨x, hx, outputId_injective he⟩,
          fun ⟨x, hx, he⟩ => ⟨x, hx, by rw [he]⟩⟩
      -- The head has the lowest counter value, so its id is the least key.
      have hhead : ∀ k ∈ c.entries.map Prod.fst, outputId a.1 ≤ k := by
        intro k hk
        rw [hkeys, mem_map] at hk
        obtain ⟨x, hx, rfl⟩ := hk
        refine hold (by rw [hlen]; exact hfull) a.1 x.1 ((holds _).mpr ⟨a, by simp, rfl⟩) ?_
          ((holds _).mpr ⟨x, hx, rfl⟩)
        intro j hj hheld
        obtain ⟨y, hy, rfl⟩ := (holds j).mp hheld
        rcases mem_cons.mp hy with rfl | later
        · omega
        · have := hinc.1 y later
          omega
      have hne : c.entries.map Prod.fst ≠ [] := by simp [hkeys]
      obtain ⟨m, hm, hleast, hle⟩ := leastKey_spec hne
      have hma : m = outputId a.1 :=
        le_antisymm (hle _ (by simp [hkeys])) (hhead m hm)
      rw [hleast, hma]
      have hothers : ∀ x ∈ q, outputId x.1 ≠ outputId a.1 := by
        intro x hx he
        have hlt := hinc.1 x hx
        rw [outputId_injective he] at hlt
        omega
      simp only [h, map_cons, tail_cons, keyed, ne_eq, decide_not]
      rw [filter_cons_of_neg (by simp), filter_eq_self]
      intro x hx
      obtain ⟨y, hy, rfl⟩ := mem_map.mp hx
      simp [keyed, hothers y hy]
  · exact h

theorem insert_keyed (h : c.entries = q.map keyed) (hfresh : ∀ x ∈ q, x.1 ≠ n) (e : CacheEntry) :
    (c.insert (outputId n) e).entries = (q ++ [(n, e)]).map keyed := by
  have hkeep : ∀ p ∈ c.entries, p.1 ≠ outputId n := by
    intro p hp he
    rw [h] at hp
    obtain ⟨x, hx, rfl⟩ := mem_map.mp hp
    exact hfresh x hx (outputId_injective he)
  rw [OutputCache.insert, filter_eq_self.mpr (by simpa using hkeep), h]
  simp [keyed]

def Outlived (ttl : ℕ) (calls : List StoreCall) (x : ℕ × CacheEntry) : Prop :=
  ∀ now, (∀ s ∈ calls, s.created ≤ now) → x.2.live ttl now = false

/-- The cache after `calls` is the queue `q` under its ids. -/
structure Agrees (calls : List StoreCall) (c : OutputCache) (q : List (ℕ × CacheEntry)) :
    Prop where
  entries : c.entries = q.map keyed
  counter : c.counter = calls.length % 2 ^ 64
  window : BoundedQueue.Window c.maxEntries (Outlived c.ttl calls) (indexed calls) q

theorem Agrees.sublist (h : Agrees calls c q) : q.Sublist (indexed calls) := by
  obtain ⟨k, -, rfl, -⟩ := h.window
  exact drop_sublist k _

theorem survivors_final (h : Timely calls) (ttl now : ℕ) :
    (indexed calls).Pairwise fun x y => x.2.live ttl now = true → y.2.live ttl now = true := by
  have hordered : calls.Pairwise fun a b => a.created ≤ b.created :=
    h.1.imp_of_mem fun _ hb hab => hab.trans (h.2 _ hb)
  have hidx : (indexed calls).Pairwise fun x y => x.2.created ≤ y.2.created := by
    have hmap : (indexed calls).map (fun x => x.2.created) = calls.map StoreCall.created := by
      simp only [indexed, map_map, Function.comp_def, StoreCall.entry]
      conv_rhs => rw [← zipIdx_map_fst 0 calls, map_map]
      rfl
    rw [← pairwise_map (f := fun x : ℕ × CacheEntry => x.2.created) (R := (· ≤ ·)), hmap,
      pairwise_map]
    exact hordered
  refine hidx.imp ?_
  intro x y hxy hlive
  simp only [CacheEntry.live, decide_eq_true_eq] at hlive ⊢
  omega

theorem store_agrees (h : Agrees calls c q) (hcap : 1 ≤ c.maxEntries) (hlen : calls.length < 2 ^ 64)
    (htimely : Timely (calls ++ [s])) (hold : OldestIsLeast (c.cleanup s.now)) :
    Agrees (calls ++ [s]) (c.store s.now s.created s.output).2
      (BoundedQueue.push c.maxEntries (fun x => x.2.live c.ttl s.now) q
        (calls.length, s.entry)) := by
  obtain ⟨hcalls, hlast, hnow⟩ := timely_concat.mp htimely
  have hcounter : c.counter = calls.length := by
    rw [h.counter, Nat.mod_eq_of_lt hlen]
  have hinc := (indexed_increasing calls).sublist h.sublist
  -- The counter is bumped before the map is touched; no operation on the entries reads it.
  have hclean : (cleanup { c with counter := (c.counter + 1) % 2 ^ 64 } s.now).entries =
      (q.filter fun x => x.2.live c.ttl s.now).map keyed := cleanup_keyed h.entries s.now
  have hsurvivors : (q.filter fun x => x.2.live c.ttl s.now).Sublist q := filter_sublist
  have hevict := evict_keyed hclean hcap (hinc.sublist hsurvivors) hold
  refine ⟨?_, ?_, ?_⟩
  · have hfresh : ∀ x ∈ (if c.maxEntries ≤ (q.filter fun x => x.2.live c.ttl s.now).length then
        (q.filter fun x => x.2.live c.ttl s.now).tail
        else q.filter fun x => x.2.live c.ttl s.now), x.1 ≠ calls.length := by
      intro x hx
      have hxq : x ∈ q := by
        split at hx
        · exact mem_of_mem_filter (mem_of_mem_tail hx)
        · exact mem_of_mem_filter hx
      obtain ⟨t, ht, -⟩ := mem_indexed.mp (h.sublist.mem hxq)
      exact (List.getElem?_eq_some_iff.mp ht).1.ne
    have hinsert := insert_keyed hevict hfresh s.entry
    simp only [store]
    rw [hcounter] at hinsert ⊢
    exact hinsert
  · rw [store_counter, hcounter, length_append]
    rfl
  · rw [store_maxEntries, store_ttl, indexed_concat]
    refine h.window.push hcap _ ?_ ?_ (survivors_final hcalls c.ttl s.now)
    · intro x _ hdead now hafter
      exact hdead now fun a ha => hafter a (mem_append_left _ ha)
    · intro x _ hgone now hafter
      have hs := hafter s (by simp)
      simp only [CacheEntry.live, decide_eq_false_iff_not] at hgone ⊢
      omega

@[simp] theorem storeAll_ttl (c : OutputCache) (calls : List StoreCall) :
    (c.storeAll calls).ttl = c.ttl := by
  induction calls using reverseRecOn with
  | nil => rfl
  | append_singleton calls s ih => rw [storeAll_concat, store_ttl, ih]

@[simp] theorem storeAll_maxEntries (c : OutputCache) (calls : List StoreCall) :
    (c.storeAll calls).maxEntries = c.maxEntries := by
  induction calls using reverseRecOn with
  | nil => rfl
  | append_singleton calls s ih => rw [storeAll_concat, store_maxEntries, ih]

theorem storeAll_agrees (hcap : 1 ≤ maxEntries) (hlen : calls.length ≤ 2 ^ 64)
    (htimely : Timely calls) (hold : EvictsOldest (.new ttl maxEntries) calls) :
    ∃ q, Agrees calls ((new ttl maxEntries).storeAll calls) q := by
  induction calls using reverseRecOn with
  | nil => exact ⟨[], rfl, rfl, BoundedQueue.window_nil _ _⟩
  | append_singleton calls s ih =>
    rw [length_append, length_singleton] at hlen
    obtain ⟨q, hq⟩ := ih (by omega) (timely_concat.mp htimely).1 (by
      intro done t rest hsplit
      exact hold done t (rest ++ [s]) (by rw [hsplit]; simp))
    have hstep := store_agrees (s := s) hq (by simpa [new] using hcap) (by omega) htimely
      (hold calls s [] rfl)
    rw [storeAll_concat]
    exact ⟨_, hstep⟩

def storeIds (c : OutputCache) : List StoreCall → List Text
  | [] => []
  | s :: calls =>
    (c.store s.now s.created s.output).1 ::
      storeIds (c.store s.now s.created s.output).2 calls

theorem storeIds_counter (c : OutputCache) (calls : List StoreCall)
    (h : c.counter + calls.length ≤ 2 ^ 64) :
    storeIds c calls = (range' c.counter calls.length).map outputId := by
  induction calls generalizing c with
  | nil => rfl
  | cons s calls ih =>
    rw [length_cons] at h ⊢
    rw [storeIds, range'_succ, map_cons]
    congr 1
    cases calls with
    | nil => rfl
    | cons t calls =>
      rw [length_cons] at h ih ⊢
      have hnext : (c.store s.now s.created s.output).2.counter = c.counter + 1 := by
        rw [store_counter]
        exact Nat.mod_eq_of_lt (by omega)
      rw [ih _ (by omega), hnext]

theorem get_keyed (h : c.entries = q.map keyed) (hinc : q.Pairwise fun x y => x.1 < y.1)
    {x : ℕ × CacheEntry} (hx : x ∈ q) :
    c.get (outputId x.1) = some x.2 := by
  obtain ⟨older, newer, rfl⟩ := append_of_mem hx
  rw [OutputCache.get, h, lookup_eq_some_iff]
  refine ⟨older.map keyed, newer.map keyed, by simp [keyed], ?_⟩
  intro p hp
  obtain ⟨y, hy, rfl⟩ := mem_map.mp hp
  have hlt := (pairwise_append.mp hinc).2.2 y hy x (by simp)
  simp only [keyed, bne_iff_ne, ne_eq]
  intro he
  rw [outputId_injective he] at hlt
  omega

theorem get_absent (h : c.entries = q.map keyed) {id : Text}
    (habsent : ∀ x ∈ q, outputId x.1 ≠ id) : c.get id = none := by
  rw [OutputCache.get, h, lookup_eq_none_iff]
  intro p hp
  obtain ⟨y, hy, rfl⟩ := mem_map.mp hp
  simpa [keyed] using (habsent y hy).symm

theorem get_dropped (h : c.entries = ((indexed calls).drop k).map keyed) (hik : i < k) :
    c.get (outputId i) = none := by
  refine get_absent h ?_
  intro x hx he
  obtain ⟨j, hj⟩ := mem_iff_getElem?.mp hx
  rw [getElem?_drop, indexed_getElem?, Option.map_eq_some_iff] at hj
  obtain ⟨t, -, rfl⟩ := hj
  have := outputId_injective he
  omega

theorem mem_indexed_drop (hs : calls[i]? = some s) (hki : k ≤ i) :
    (i, s.entry) ∈ (indexed calls).drop k := by
  rw [mem_iff_getElem?]
  refine ⟨i - k, ?_⟩
  rw [getElem?_drop, show k + (i - k) = i by omega, indexed_getElem?, hs]
  rfl

/-- In a run that always evicts the oldest, the cache keeps to its size, hands out new ids, and
serves from then on exactly the last `maxEntries` outputs that have not outlived the ttl. -/
theorem eviction_oldest_first (ttl maxEntries : ℕ) (hcap : 1 ≤ maxEntries)
    (calls : List StoreCall) (hlen : calls.length ≤ 2 ^ 64) (htimely : Timely calls)
    (hold : EvictsOldest (.new ttl maxEntries) calls) :
    ((new ttl maxEntries).storeAll calls).entries.length ≤ maxEntries ∧
    (storeIds (.new ttl maxEntries) calls).Nodup ∧
    ∀ now, (∀ s ∈ calls, s.created ≤ now) → ∀ offset limit,
      (∀ (i : ℕ) s id, calls[i]? = some s →
        (storeIds (.new ttl maxEntries) calls)[i]? = some id →
        ((new ttl maxEntries).storeAll calls).fetch now id offset limit =
          if calls.length ≤ i + maxEntries ∧ s.entry.live ttl now = true then
            (page s.output offset limit).map some
          else .ok none) ∧
      ∀ id ∉ storeIds (.new ttl maxEntries) calls,
        ((new ttl maxEntries).storeAll calls).fetch now id offset limit = .ok none := by
  obtain ⟨q, hq⟩ := storeAll_agrees hcap hlen htimely hold
  have hids : storeIds (.new ttl maxEntries) calls = (range calls.length).map outputId := by
    rw [range_eq_range']
    exact storeIds_counter (.new ttl maxEntries) calls (by simpa [new] using hlen)
  have hinc := (indexed_increasing calls).sublist hq.sublist
  have hwindow := hq.window
  simp only [storeAll_ttl, storeAll_maxEntries] at hwindow
  change BoundedQueue.Window maxEntries (Outlived ttl calls) (indexed calls) q at hwindow
  refine ⟨?_, ?_, ?_⟩
  · rw [hq.entries, length_map]
    exact hwindow.length_le
  · rw [hids]
    exact nodup_range.map outputId_injective
  · intro now hnow offset limit
    constructor
    · intro i s id hs hid
      have hi := (List.getElem?_eq_some_iff.mp hs).1
      obtain rfl : id = outputId i := by
        rw [hids, getElem?_map, getElem?_range hi] at hid
        exact (Option.some.inj hid).symm
      obtain ⟨k, hk, rfl, hcapk, hdead⟩ := hwindow
      have hentry : (indexed calls)[i]? = some (i, s.entry) := by simp [indexed_getElem?, hs]
      rw [indexed_length] at hcapk hdead
      by_cases hik : i < k
      · -- Dropped: out of the last `maxEntries`, or dead.
        have hcond : ¬ (calls.length ≤ i + maxEntries ∧ s.entry.live ttl now = true) := by
          rintro ⟨hrecent, hlive⟩
          have hgone := hdead i _ hentry hrecent hik now hnow
          rw [hlive] at hgone
          cases hgone
        rw [if_neg hcond, fetch, get_dropped hq.entries hik]
      · have hmem := mem_indexed_drop hs (Nat.le_of_not_lt hik)
        rw [fetch, get_keyed hq.entries hinc hmem]
        simp only [storeAll_ttl]
        change (if s.entry.live ttl now = true then _ else _) = _
        by_cases hlive : s.entry.live ttl now = true
        · rw [if_pos hlive, if_pos ⟨by omega, hlive⟩]
          rfl
        · rw [if_neg hlive, if_neg (fun h => hlive h.2)]
    · intro id hid
      have hget : ((new ttl maxEntries).storeAll calls).get id = none := by
        refine get_absent hq.entries ?_
        intro x hx he
        obtain ⟨t, ht, -⟩ := mem_indexed.mp (hq.sublist.mem hx)
        apply hid
        rw [hids, mem_map]
        exact ⟨x.1, mem_range.mpr (List.getElem?_eq_some_iff.mp ht).1, he⟩
      rw [fetch, hget]

theorem mem_store_entries {p : Text × CacheEntry}
    (h : p ∈ (c.store s.now s.created s.output).2.entries) :
    p ∈ c.entries ∨ p = (outputId c.counter, s.entry) := by
  simp only [OutputCache.store, OutputCache.insert, mem_append, mem_singleton] at h
  rcases h with hkept | hnew
  · left
    have hevict := (mem_filter.mp hkept).1
    unfold OutputCache.evict at hevict
    split at hevict
    · split at hevict
      · exact (mem_filter.mp hevict).1
      · exact (mem_filter.mp (mem_filter.mp hevict).1).1
    · exact (mem_filter.mp hevict).1
  · exact .inr hnew

theorem storeAll_counter (ttl maxEntries : ℕ) (calls : List StoreCall) :
    ((new ttl maxEntries).storeAll calls).counter = calls.length % 2 ^ 64 := by
  induction calls using reverseRecOn with
  | nil => rfl
  | append_singleton calls s ih =>
    rw [storeAll_concat, store_counter, ih, length_append, length_singleton,
      Nat.mod_add_mod]

theorem storeAll_keys (h : calls.length ≤ 2 ^ 64) :
    ∀ p ∈ ((new ttl maxEntries).storeAll calls).entries,
      ∃ j < calls.length, p.1 = outputId j := by
  induction calls using reverseRecOn with
  | nil =>
    intro p hp
    cases hp
  | append_singleton calls s ih =>
    rw [length_append, length_singleton] at h ⊢
    intro p hp
    rw [storeAll_concat] at hp
    rcases mem_store_entries hp with hkept | rfl
    · obtain ⟨j, hj, he⟩ := ih (by omega) p hkept
      exact ⟨j, by omega, he⟩
    · refine ⟨calls.length, by omega, ?_⟩
      rw [storeAll_counter, Nat.mod_eq_of_lt (by omega)]

theorem evictsOldest_of_length (ttl maxEntries : ℕ) (h : calls.length ≤ 16 ^ 4 + 1) :
    EvictsOldest (.new ttl maxEntries) calls := by
  intro done s rest hcalls _ m n hm hleast hn
  have hdone : done.length ≤ 16 ^ 4 := by
    rw [hcalls, length_append, length_cons] at h
    omega
  have hwidth : ∀ i, HoldsId (((new ttl maxEntries).storeAll done).cleanup s.now) i →
      hexWidth i = 4 := by
    intro i hi
    obtain ⟨p, hp, hid⟩ := mem_map.mp hi
    obtain ⟨j, hj, hkey⟩ := storeAll_keys (by omega) p (mem_filter.mp hp).1
    rw [outputId_injective (hid.symm.trans hkey)]
    exact hexWidth_of_lt (by omega)
  rw [← not_lt, outputId_lt ((hwidth n hn).trans (hwidth m hm).symm)]
  exact fun hlt => hleast n hlt hn

theorem timely_replicate (n t : ℕ) (output : Text) :
    Timely (replicate n ⟨t, t, output⟩) := by
  refine ⟨pairwise_replicate.mpr (.inr le_rfl), ?_⟩
  intro s hs
  rw [eq_of_mem_replicate hs]

theorem eviction_three_stores :
    ((new 10 2).storeAll [⟨0, 0, ['a']⟩, ⟨1, 1, ['b']⟩, ⟨2, 2, ['c']⟩]).fetch 2
        (outputId 0) 0 1 = .ok none ∧
    ((new 10 2).storeAll [⟨0, 0, ['a']⟩, ⟨1, 1, ['b']⟩, ⟨2, 2, ['c']⟩]).fetch 2
        (outputId 1) 0 1 = .ok (some ⟨['b'], 1, 0, false⟩) := by
  have hrun := (eviction_oldest_first 10 2 (by decide)
    [⟨0, 0, ['a']⟩, ⟨1, 1, ['b']⟩, ⟨2, 2, ['c']⟩] (by decide) (by decide)
    (evictsOldest_of_length 10 2 (by decide))).2.2 2 (by decide) 0 1
  exact ⟨(hrun.1 0 _ _ rfl rfl).trans (by decide), (hrun.1 1 _ _ rfl rfl).trans (by decide)⟩

theorem storeAll_replicate (output : Text) :
    (new 1 2).storeAll (replicate 65536 ⟨0, 0, output⟩) =
      ⟨[(outputId 65534, ⟨output, 0⟩), (outputId 65535, ⟨output, 0⟩)], 65536, 1, 2⟩ := by
  have hlength : (replicate 65536 (⟨0, 0, output⟩ : StoreCall)).length = 65536 :=
    length_replicate
  have hagrees : ∃ q, Agrees _ ((new 1 2).storeAll
      (replicate 65536 ⟨0, 0, output⟩)) q :=
    storeAll_agrees (by decide) (hlength.le.trans (by norm_num)) (timely_replicate 65536 0 output)
      (evictsOldest_of_length 1 2 (hlength.le.trans (by norm_num)))
  obtain ⟨q, hq⟩ := hagrees
  have hentries := hq.entries
  obtain ⟨k, hk, rfl, hcap, hdead⟩ := hq.window
  rw [indexed_length, hlength] at hk hcap hdead
  simp only [storeAll_ttl, storeAll_maxEntries, new] at hcap hdead
  have hat : ∀ i < 65536, (indexed (replicate 65536 ⟨0, 0, output⟩))[i]? =
      some (i, ⟨output, 0⟩) := by
    intro i hi
    rw [indexed_getElem?, getElem?_replicate, if_pos hi]
    rfl
  -- Nothing has expired, so the window starts right where the capacity says.
  have hk : k = 65534 := by
    by_contra hne
    have hgone := hdead 65534 _ (hat 65534 (by norm_num)) le_rfl (by omega) 0
      (fun s hs => by rw [eq_of_mem_replicate hs])
    simp [CacheEntry.live] at hgone
  have hlast : (indexed (replicate 65536 ⟨0, 0, output⟩)).drop k =
      [(65534, ⟨output, 0⟩), (65535, ⟨output, 0⟩)] := by
    rw [hk]
    apply ext_getElem?
    intro i
    rw [getElem?_drop]
    rcases i with - | - | i
    · exact hat 65534 (by norm_num)
    · exact hat 65535 (by norm_num)
    · rw [getElem?_eq_none (by rw [indexed_length, hlength]; omega)]
      rfl
  rw [hlast] at hentries
  have hcounter := hq.counter
  rw [hlength] at hcounter
  have httl := storeAll_ttl (.new 1 2) (replicate 65536 ⟨0, 0, output⟩)
  have hmax := storeAll_maxEntries (.new 1 2) (replicate 65536 ⟨0, 0, output⟩)
  generalize (new 1 2).storeAll _ = c at hentries hcounter httl hmax ⊢
  obtain ⟨entries, counter, ttl, maxEntries⟩ := c
  simp only at hentries hcounter httl hmax
  rw [hentries, hcounter, httl, hmax]
  rfl

/-- The entry stored under `out-10000` is evicted by the very next store, ahead of `out-ffff`,
although the cache holds two entries and none has expired. -/
theorem eviction_drops_newest :
    Timely (replicate 65538 ⟨0, 0, ['x']⟩) ∧
    (storeIds (.new 1 2) (replicate 65538 ⟨0, 0, ['x']⟩))[65536]? =
      some "out-10000".toList ∧
    ((new 1 2).storeAll (replicate 65538 ⟨0, 0, ['x']⟩)).fetch 0
      "out-10000".toList 0 1 = .ok none ∧
    ((new 1 2).storeAll (replicate 65538 ⟨0, 0, ['x']⟩)).fetch 0
      "out-ffff".toList 0 1 = .ok (some ⟨['x'], 1, 0, false⟩) := by
  have hsplit : replicate 65538 (⟨0, 0, ['x']⟩ : StoreCall) =
      replicate 65536 ⟨0, 0, ['x']⟩ ++ [⟨0, 0, ['x']⟩] ++ [⟨0, 0, ['x']⟩] := by
    rw [← replicate_succ', ← replicate_succ']
  have hid : (storeIds (.new 1 2) (replicate 65538 ⟨0, 0, ['x']⟩))[65536]? =
      some (outputId 65536) := by
    rw [storeIds_counter _ _ (by rw [length_replicate]; decide), getElem?_map,
      length_replicate, getElem?_range' (by norm_num)]
    rfl
  refine ⟨timely_replicate 65538 0 ['x'], hid.trans (by decide +kernel), ?_, ?_⟩
  · rw [hsplit, storeAll_concat, storeAll_concat, storeAll_replicate]
    decide +kernel
  · rw [hsplit, storeAll_concat, storeAll_concat, storeAll_replicate]
    decide +kernel

end BridgeMcp.Output
