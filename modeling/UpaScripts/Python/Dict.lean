import Mathlib.Data.List.Nodup

/-!
# `UpaScripts.Python.Dict`: `dict`

A `dict` remembers the order in which its keys were first set: `d[k] = v` replaces the
value in place when `k` is already a key, and adds `k` at the end otherwise, and
`d.items()` follows that order. `Dict` is the list of entries in that order, with the
invariant that no key occurs twice carried as a field, so no operation can build a dict
with a repeated key.

* `Dict.set`: `d[k] = v`. `get?_set` and `keys_set` say what it changes.
* `Dict.ofList`: `dict(pairs)`, also the dict a display or a comprehension builds.
  `entries_ofList` is the case the scripts meet: with distinct keys, the pairs as given.
* `Dict.groupBy`: `d[key(x)].append(x)` for each `x` in turn, a new key starting with
  `[]`. `entries_groupBy`: one entry per key in the order of first occurrence
  (`List.eraseDups`), holding the elements with that key in order.
-/

set_option autoImplicit false

namespace UpaScripts.Python

/-- A `dict`: its entries in insertion order, no key twice. -/
structure Dict (κ ν : Type) where
  entries : List (κ × ν)
  nodup : (entries.map Prod.fst).Nodup
deriving DecidableEq, Repr

namespace Dict

variable {κ ν : Type} [DecidableEq κ]

/-- `{}`. -/
def empty : Dict κ ν :=
  ⟨[], List.nodup_nil⟩

/-- `list(d)`: the keys in insertion order. -/
def keys (d : Dict κ ν) : List κ :=
  d.entries.map Prod.fst

/-- `d.get(k)`: the value under `k`, `none` when `k` is not a key. -/
def get? (d : Dict κ ν) (k : κ) : Option ν :=
  d.entries.lookup k

/-- The entry `e` after `d[k] = v`: its value replaced when its key is `k`. -/
def update (k : κ) (v : ν) (e : κ × ν) : κ × ν :=
  if e.1 = k then (k, v) else e

@[simp] theorem fst_update (k : κ) (v : ν) (e : κ × ν) : (update k v e).1 = e.1 := by
  unfold update
  split <;> simp_all

theorem map_fst_map_update (k : κ) (v : ν) (l : List (κ × ν)) :
    (l.map (update k v)).map Prod.fst = l.map Prod.fst := by
  simp [Function.comp_def]

/-- `d[k] = v`. -/
def set (d : Dict κ ν) (k : κ) (v : ν) : Dict κ ν :=
  if h : k ∈ d.keys then
    ⟨d.entries.map (update k v), (map_fst_map_update k v d.entries).symm ▸ d.nodup⟩
  else
    ⟨d.entries ++ [(k, v)], by
      rw [List.map_append, List.nodup_append]
      exact ⟨d.nodup, List.nodup_singleton k, List.disjoint_singleton.mpr h⟩⟩

/-- `dict(pairs)`: each pair set in turn. -/
def ofList (pairs : List (κ × ν)) : Dict κ ν :=
  pairs.foldl (fun d p => d.set p.1 p.2) empty

@[simp] theorem get?_empty (k : κ) : (empty : Dict κ ν).get? k = none := rfl

theorem entries_set_of_mem {d : Dict κ ν} {k : κ} (v : ν) (h : k ∈ d.keys) :
    (d.set k v).entries = d.entries.map (update k v) := by
  simp [set, h]

theorem entries_set_of_not_mem {d : Dict κ ν} {k : κ} (v : ν) (h : k ∉ d.keys) :
    (d.set k v).entries = d.entries ++ [(k, v)] := by
  simp [set, h]

theorem keys_set (d : Dict κ ν) (k : κ) (v : ν) :
    (d.set k v).keys = if k ∈ d.keys then d.keys else d.keys ++ [k] := by
  by_cases h : k ∈ d.keys
  · rw [if_pos h, keys, entries_set_of_mem v h, map_fst_map_update]; rfl
  · rw [if_neg h, keys, entries_set_of_not_mem v h, List.map_append]; rfl

theorem mem_keys_set {d : Dict κ ν} {k k' : κ} {v : ν} (h : k ∈ (d.set k' v).keys) :
    k ∈ d.keys ∨ k = k' := by
  rw [keys_set] at h
  split at h
  · exact .inl h
  · simpa using h

theorem lookup_cons_ite (k k' : κ) (v : ν) (l : List (κ × ν)) :
    ((k, v) :: l).lookup k' = if k' = k then some v else l.lookup k' := by
  rw [List.lookup_cons]
  split <;> simp_all

theorem lookup_map_update (k k' : κ) (v : ν) (l : List (κ × ν)) :
    (l.map (update k v)).lookup k' = if k' = k then (l.lookup k).map fun _ => v
      else l.lookup k' := by
  induction l with
  | nil => split <;> rfl
  | cons e l ih =>
    obtain ⟨a, b⟩ := e
    by_cases ha : a = k
    · subst ha
      rw [List.map_cons, update, if_pos rfl, lookup_cons_ite, lookup_cons_ite, if_pos rfl]
      by_cases hk : k' = a <;> simp [hk, lookup_cons_ite, ih]
    · rw [List.map_cons, update, if_neg ha, lookup_cons_ite, lookup_cons_ite, ih,
        lookup_cons_ite, if_neg (Ne.symm ha)]
      by_cases hk : k' = k
      · simp [hk, Ne.symm ha]
      · simp [hk]

theorem get?_eq_none_iff {d : Dict κ ν} {k : κ} : d.get? k = none ↔ k ∉ d.keys := by
  simp only [get?, keys, List.lookup_eq_none_iff, bne_iff_ne, ne_eq, List.mem_map, not_exists,
    not_and]
  exact ⟨fun h p hp hk => h p hp hk.symm, fun h p hp hk => h p hp hk.symm⟩

theorem mem_keys_of_get? {d : Dict κ ν} {k : κ} {v : ν} (h : d.get? k = some v) : k ∈ d.keys := by
  by_contra hk
  rw [get?_eq_none_iff.mpr hk] at h
  cases h

/-- `d[k] = v` sets `k` and leaves every other key as it was. -/
theorem get?_set (d : Dict κ ν) (k k' : κ) (v : ν) :
    (d.set k v).get? k' = if k' = k then some v else d.get? k' := by
  by_cases h : k ∈ d.keys
  · rw [get?, entries_set_of_mem v h, lookup_map_update]
    split
    · obtain ⟨w, hw⟩ := Option.ne_none_iff_exists'.mp (mt get?_eq_none_iff.mp (not_not.mpr h))
      simp only [get?] at hw
      simp [hw]
    · rfl
  · rw [get?, entries_set_of_not_mem v h, List.lookup_append, lookup_cons_ite]
    split
    · subst k'
      rw [show d.entries.lookup k = none from get?_eq_none_iff.mpr h]
      rfl
    · simp; rfl

/-- Keys set in turn, each to a value of its own: a key set holds its value, another keeps
the dict's. -/
theorem get?_foldl_set (ks : List κ) (g : κ → ν) (d : Dict κ ν) (k : κ) :
    (ks.foldl (fun d k => d.set k (g k)) d).get? k = if k ∈ ks then some (g k) else d.get? k := by
  induction ks generalizing d with
  | nil => simp
  | cons c ks ih =>
    rw [List.foldl_cons, ih, get?_set]
    by_cases hk : k ∈ ks
    · simp [hk]
    · by_cases hc : k = c
      · subst hc
        simp
      · simp [hk, hc]

/-- Setting keys adds no key but those set. -/
theorem mem_keys_foldl_set {α : Type} (l : List α) (f : α → κ) (g : α → ν) (d : Dict κ ν)
    {k : κ} (h : k ∈ (l.foldl (fun d x => d.set (f x) (g x)) d).keys) :
    k ∈ d.keys ∨ k ∈ l.map f := by
  induction l generalizing d with
  | nil => exact .inl h
  | cons x l ih =>
    rcases ih _ h with h | h
    · rcases mem_keys_set h with h | rfl
      · exact .inl h
      · exact .inr (List.mem_cons_self _ _)
    · exact .inr (List.mem_cons_of_mem _ h)

/-- Setting keys keeps every key and adds those set. -/
theorem mem_keys_foldl_set_of_mem {α : Type} (l : List α) (f : α → κ) (g : α → ν)
    (d : Dict κ ν) {k : κ} (h : k ∈ d.keys ∨ k ∈ l.map f) :
    k ∈ (l.foldl (fun d x => d.set (f x) (g x)) d).keys := by
  induction l generalizing d with
  | nil => simpa using h
  | cons x l ih =>
    refine ih _ (h.elim (fun h => .inl ?_) fun h => ?_)
    · rw [keys_set]; split
      · exact h
      · exact List.mem_append_left _ h
    · rcases List.mem_cons.mp h with h | h
      · left; rw [keys_set]; split
        · rwa [h]
        · simp [h]
      · exact .inr h

theorem mem_keys_ofList {pairs : List (κ × ν)} {k : κ} (h : k ∈ (ofList pairs).keys) :
    k ∈ pairs.map Prod.fst := by
  rcases mem_keys_foldl_set pairs Prod.fst Prod.snd empty h with h | h
  · cases h
  · exact h

/-- After `d[key(x)] = val(x)` for each `x` in turn, a key holds the value of the last `x`
with that key, or, when there is none, what it held before. -/
theorem get?_foldl_set_getLast {α : Type} (key : α → κ) (val : α → ν) (xs : List α)
    (d : Dict κ ν) (k : κ) :
    (xs.foldl (fun d x => d.set (key x) (val x)) d).get? k =
      ((xs.filter fun x => key x = k).getLast?.map val).or (d.get? k) := by
  induction xs generalizing d with
  | nil => simp
  | cons x xs ih =>
    rw [List.foldl_cons, ih, get?_set]
    by_cases hx : key x = k
    · simp only [hx, if_true, List.filter_cons, decide_True, List.getLast?_cons]
      cases (xs.filter fun x => key x = k).getLast? <;> rfl
    · simp [hx, Ne.symm hx, List.filter_cons]

/-- `dict(pairs)` for pairs with distinct keys, set over a dict without them: the pairs come
after the dict's entries, in their order. -/
theorem entries_foldl_set (pairs : List (κ × ν)) (d : Dict κ ν)
    (h : (d.keys ++ pairs.map Prod.fst).Nodup) :
    (pairs.foldl (fun d p => d.set p.1 p.2) d).entries = d.entries ++ pairs := by
  induction pairs generalizing d with
  | nil => simp
  | cons p pairs ih =>
    have hp : p.1 ∉ d.keys := by
      intro hp
      simp only [List.map_cons, List.nodup_append, List.nodup_cons] at h
      exact h.2.2 hp (List.mem_cons_self _ _)
    rw [List.foldl_cons, ih _ (by rw [keys_set, if_neg hp]; simpa using h),
      entries_set_of_not_mem _ hp, List.append_assoc]
    rfl

/-- `dict(pairs)` with distinct keys holds the pairs as given. -/
theorem entries_ofList {pairs : List (κ × ν)} (h : (pairs.map Prod.fst).Nodup) :
    (ofList pairs).entries = pairs :=
  entries_foldl_set pairs empty h

theorem get?_ofList_of_nodup {pairs : List (κ × ν)} (h : (pairs.map Prod.fst).Nodup) (k : κ) :
    (ofList pairs).get? k = pairs.lookup k := by
  rw [get?, entries_ofList h]

/-- Looking up each key of a zip with distinct keys gives the values back. -/
theorem map_lookup_zip {keys : List κ} {values : List ν} (h : keys.Nodup)
    (hlen : values.length = keys.length) (default : ν) :
    keys.map (fun k => ((keys.zip values).lookup k).getD default) = values := by
  induction keys generalizing values with
  | nil => exact (List.eq_nil_of_length_eq_zero hlen).symm
  | cons k keys ih =>
    obtain ⟨v, values, rfl⟩ := List.exists_cons_of_length_eq_add_one hlen
    obtain ⟨hk, hkeys⟩ := List.nodup_cons.mp h
    rw [List.map_cons, List.zip_cons_cons, lookup_cons_ite, if_pos rfl, Option.getD_some]
    congr 1
    refine (List.map_congr_left fun k' hk' => ?_).trans (ih hkeys (by simpa using hlen))
    rw [lookup_cons_ite, if_neg (fun (h : k' = k) => hk (h ▸ hk'))]

omit [DecidableEq κ] in
@[ext] theorem ext {d d' : Dict κ ν} (h : d.entries = d'.entries) : d = d' := by
  cases d
  cases d'
  cases h
  rfl

/-- Setting a key twice is setting it to the second value. -/
theorem set_set_self (d : Dict κ ν) (k : κ) (v v' : ν) : (d.set k v).set k v' = d.set k v' := by
  ext1
  by_cases h : k ∈ d.keys
  · have h' : k ∈ (d.set k v).keys := by rw [keys_set, if_pos h]; exact h
    rw [entries_set_of_mem v' h', entries_set_of_mem v h, entries_set_of_mem v' h, List.map_map]
    exact List.map_congr_left fun e _ => by unfold update; split <;> simp_all
  · have h' : k ∈ (d.set k v).keys := by rw [keys_set, if_neg h]; simp
    rw [entries_set_of_mem v' h', entries_set_of_not_mem v h, entries_set_of_not_mem v' h,
      List.map_append]
    congr 1
    · refine (List.map_congr_left fun e he => ?_).trans (List.map_id _)
      have : e.1 ≠ k := fun hk => h (hk ▸ List.mem_map_of_mem Prod.fst he)
      simp [update, this]
    · simp [update]

/-- The dict with `f` applied to each value. -/
def mapValues {μ : Type} (f : ν → μ) (d : Dict κ ν) : Dict κ μ :=
  ⟨d.entries.map fun e => (e.1, f e.2), by simpa [Function.comp_def] using d.nodup⟩

omit [DecidableEq κ] in
theorem keys_mapValues {μ : Type} (f : ν → μ) (d : Dict κ ν) : (d.mapValues f).keys = d.keys := by
  simp [mapValues, keys, Function.comp_def]

theorem get?_mapValues {μ : Type} (f : ν → μ) (d : Dict κ ν) (k : κ) :
    (d.mapValues f).get? k = (d.get? k).map f := by
  simp only [mapValues, get?]
  induction d.entries with
  | nil => rfl
  | cons e l ih =>
    rw [List.map_cons, lookup_cons_ite, lookup_cons_ite]
    split
    · rfl
    · exact ih

/-- A lookup in pairs built from a list of keys. -/
theorem lookup_map_pair {μ : Type} (f : κ → μ) (ks : List κ) (k : κ) :
    (ks.map fun k' => (k', f k')).lookup k = if k ∈ ks then some (f k) else none := by
  induction ks with
  | nil => simp
  | cons k' ks ih =>
    rw [List.map_cons, lookup_cons_ite, ih]
    by_cases hk : k = k' <;> simp [hk]

/-! ### Dicts with a fixed set of keys -/

section OfKeys

variable {ks : List κ} (hnodup : ks.Nodup)
include hnodup

theorem entries_ofList_map (f : κ → ν) :
    (ofList (ks.map fun k => (k, f k))).entries = ks.map fun k => (k, f k) :=
  entries_ofList (by simpa [Function.comp_def] using hnodup)

theorem get?_ofList_map (f : κ → ν) (k : κ) :
    (ofList (ks.map fun k' => (k', f k'))).get? k = if k ∈ ks then some (f k) else none := by
  rw [get?, entries_ofList_map hnodup, lookup_map_pair]

/-- `d[k] = v` on a dict of `ks` with `k` among them changes the value in place. -/
theorem set_ofList_map (f : κ → ν) {k : κ} (hk : k ∈ ks) (v : ν) :
    (ofList (ks.map fun k' => (k', f k'))).set k v =
      ofList (ks.map fun k' => (k', if k' = k then v else f k')) := by
  ext1
  rw [entries_set_of_mem v (by simpa [Dict.keys, entries_ofList_map hnodup, Function.comp_def] using hk),
    entries_ofList_map hnodup, entries_ofList_map hnodup, List.map_map]
  exact List.map_congr_left fun k' _ => by unfold update; by_cases h : k' = k <;> simp [h]

/-- Setting each of `cols`, all among `ks`, in turn. -/
theorem foldl_set_ofList_map (c : κ → ν) {cols : List κ} (hcols : ∀ k ∈ cols, k ∈ ks)
    (f : κ → ν) :
    cols.foldl (fun d k => d.set k (c k)) (ofList (ks.map fun k' => (k', f k'))) =
      ofList (ks.map fun k' => (k', if k' ∈ cols then c k' else f k')) := by
  induction cols generalizing f with
  | nil => simp
  | cons k cols ih =>
    rw [List.foldl_cons, set_ofList_map hnodup f (hcols k (.head _)),
      ih (fun k' hk' => hcols k' (.tail _ hk'))]
    congr 2
    funext k'
    by_cases h : k' = k
    · subst h; simp
    · simp [h]

end OfKeys

/-! ### Grouping -/

theorem eraseDups_loop_cons (a : κ) (as bs : List κ) :
    List.eraseDups.loop (a :: as) bs =
      if a ∈ bs then List.eraseDups.loop as bs else List.eraseDups.loop as (a :: bs) := by
  show (match bs.elem a with
    | true => List.eraseDups.loop as bs
    | false => List.eraseDups.loop as (a :: bs)) = _
  rw [List.elem_eq_mem]
  by_cases h : a ∈ bs <;> simp [h]

theorem mem_eraseDups_loop (a : κ) (as bs : List κ) :
    a ∈ List.eraseDups.loop as bs ↔ a ∈ as ∨ a ∈ bs := by
  induction as generalizing bs with
  | nil => exact ⟨fun h => .inr (List.mem_reverse.mp h), fun h => h.elim nofun List.mem_reverse.mpr⟩
  | cons x as ih =>
    rw [eraseDups_loop_cons]
    split
    · rw [ih]
      by_cases hx : a = x
      · subst hx; simp_all
      · simp [hx]
    · rw [ih]
      simp only [List.mem_cons]
      tauto

@[simp] theorem mem_eraseDups (a : κ) (as : List κ) : a ∈ as.eraseDups ↔ a ∈ as := by
  rw [List.eraseDups, mem_eraseDups_loop]
  simp

theorem eraseDups_loop_append_singleton (a : κ) (as bs : List κ) :
    List.eraseDups.loop (as ++ [a]) bs =
      if a ∈ as ∨ a ∈ bs then List.eraseDups.loop as bs
      else List.eraseDups.loop as bs ++ [a] := by
  induction as generalizing bs with
  | nil =>
    rw [List.nil_append, eraseDups_loop_cons]
    by_cases h : a ∈ bs
    · simp [h]
    · simp only [h, if_false, List.not_mem_nil, false_or]
      exact List.reverse_cons a bs
  | cons x as ih =>
    rw [List.cons_append, eraseDups_loop_cons, eraseDups_loop_cons]
    split
    · rw [ih]
      rename_i hx
      by_cases ha : a = x
      · subst ha; simp [hx]
      · simp [ha]
    · rw [ih]
      simp only [List.mem_cons]
      congr 1
      exact propext (by tauto)

/-- A new element goes last; an element seen before changes nothing. -/
theorem eraseDups_append_singleton (a : κ) (as : List κ) :
    (as ++ [a]).eraseDups = if a ∈ as then as.eraseDups else as.eraseDups ++ [a] := by
  rw [List.eraseDups, eraseDups_loop_append_singleton]
  simp [List.eraseDups]

theorem nodup_eraseDups (as : List κ) : as.eraseDups.Nodup := by
  induction as using List.reverseRecOn with
  | nil => exact List.nodup_nil
  | append_singleton as a ih =>
    rw [eraseDups_append_singleton]
    split
    · exact ih
    · exact ih.append (List.nodup_singleton a)
        (List.disjoint_singleton.mpr (by rwa [mem_eraseDups]))

/-- `eraseDups` commutes with a map that does not merge elements. -/
theorem eraseDups_map {α : Type} [DecidableEq α] {f : α → κ} (hf : Function.Injective f)
    (xs : List α) : (xs.map f).eraseDups = xs.eraseDups.map f := by
  induction xs using List.reverseRecOn with
  | nil => rfl
  | append_singleton xs x ih =>
    rw [List.map_append, List.map_singleton, eraseDups_append_singleton, eraseDups_append_singleton,
      ih]
    by_cases hx : x ∈ xs
    · rw [if_pos ((List.mem_map_of_injective hf).mpr hx), if_pos hx]
    · rw [if_neg (mt (List.mem_map_of_injective hf).mp hx), if_neg hx, List.map_append]
      rfl

/-- `d[key(x)].append(x)` for each `x` of `xs` in turn, from `{}`, a new key starting with
`[]`. -/
def groupBy {α : Type} (key : α → κ) (xs : List α) : Dict κ (List α) :=
  xs.foldl (fun d x => d.set (key x) ((d.get? (key x)).getD [] ++ [x])) empty

/-- The groups: one per key, in the order of the key's first element, each holding the
elements with that key in order. -/
theorem entries_groupBy {α : Type} (key : α → κ) (xs : List α) :
    (groupBy key xs).entries =
      (xs.map key).eraseDups.map fun k => (k, xs.filter fun x => key x = k) := by
  induction xs using List.reverseRecOn with
  | nil => rfl
  | append_singleton xs x ih =>
    have hget : (groupBy key xs).get? (key x) =
        if key x ∈ xs.map key then some (xs.filter fun y => key y = key x) else none := by
      simp only [get?, ih, lookup_map_pair, mem_eraseDups]
    have hkeys : (groupBy key xs).keys = (xs.map key).eraseDups := by
      simp [keys, ih, Function.comp_def]
    rw [groupBy, List.foldl_append, ← groupBy, List.foldl_cons, List.foldl_nil, List.map_append,
      List.map_singleton, eraseDups_append_singleton]
    by_cases hx : key x ∈ xs.map key
    · rw [if_pos hx, entries_set_of_mem _ (by rw [hkeys, mem_eraseDups]; exact hx), ih, hget,
        if_pos hx, List.map_map]
      refine List.map_congr_left fun k _ => ?_
      by_cases hk : k = key x
      · subst hk; simp [update, List.filter_append]
      · simp [update, hk, List.filter_append, Ne.symm hk]
    · rw [if_neg hx, entries_set_of_not_mem _ (by rw [hkeys, mem_eraseDups]; exact hx), ih, hget,
        if_neg hx, List.map_append, List.map_singleton]
      congr 1
      · refine List.map_congr_left fun k hk => ?_
        have : key x ≠ k := fun h => hx (h ▸ (mem_eraseDups _ _).mp hk)
        simp [List.filter_append, this]
      · have : xs.filter (fun y => key y = key x) = [] :=
          List.filter_eq_nil_iff.mpr fun y hy h => hx (List.mem_map.mpr ⟨y, hy, by simpa using h⟩)
        simp [List.filter_append, this]

end Dict

end UpaScripts.Python
