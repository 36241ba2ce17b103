import UriTemplate.Table

/-!
# Looking up

* `Table.get?_eq_some_iff_mem` — without repeated keys, looking up is membership; `Table.get?_of_perm` — the order of the
  entries makes no difference then; `Table.get?_filter` — what is there when some values are left out;
* `Table.get?_put`, `Table.get?_update` — what is there when entries have been put in;
* `Table.nodup_keys_update` — no key is repeated then; `Table.length_ofList_eq_iff` — when there is an entry for each
  that was put in.
-/

namespace UriTemplate

namespace Table

variable {κ ν μ : Type} {table : Table κ ν} {key : κ}

theorem keys_cons (e : κ × ν) (table : Table κ ν) : keys (e :: table) = e.1 :: table.keys := rfl

theorem mem_keys_of_mem {value : ν} (h : (key, value) ∈ table) : key ∈ table.keys :=
  List.mem_map_of_mem h

variable [DecidableEq κ] [BEq κ] [LawfulBEq κ]

theorem get?_cons (k : κ) (v : ν) (table : Table κ ν) (key : κ) :
    get? ((k, v) :: table) key = if key = k then some v else table.get? key := by
  unfold get?
  rw [List.lookup_cons]
  by_cases h : key = k
  · rw [if_pos h, beq_iff_eq.2 h]
  · rw [if_neg h, beq_eq_false_iff_ne.2 h]

omit [DecidableEq κ] in
theorem mem_of_get? {value : ν} (h : table.get? key = some value) : (key, value) ∈ table := by
  obtain ⟨before, behind, rfl, -⟩ := List.lookup_eq_some_iff.1 h
  simp

theorem get?_eq_none (h : key ∉ table.keys) : table.get? key = none := by
  induction table with
  | nil => rfl
  | cons e table ih =>
    obtain ⟨k, v⟩ := e
    have hkey : key ≠ k := fun heq => h (by simp [keys, heq])
    rw [get?_cons, if_neg hkey]
    exact ih fun hmem => h (List.mem_cons_of_mem _ hmem)

/-- **Without repeated keys, what is looked up is what is there.** -/
theorem get?_eq_some_iff_mem (hd : table.keys.Nodup) {value : ν} :
    table.get? key = some value ↔ (key, value) ∈ table := by
  refine ⟨mem_of_get?, fun h => ?_⟩
  induction table with
  | nil => cases h
  | cons e table ih =>
    obtain ⟨k, v⟩ := e
    obtain ⟨hk, hd⟩ := List.nodup_cons.1 hd
    rw [get?_cons]
    rcases List.mem_cons.1 h with heq | hmem
    · cases heq
      rw [if_pos rfl]
    · have hkey : key ≠ k := fun heq => hk (heq ▸ mem_keys_of_mem hmem)
      rw [if_neg hkey, ih hd hmem]

theorem get?_of_perm {table' : Table κ ν} (h : table'.Perm table) (hd : table.keys.Nodup) (key : κ) :
    table'.get? key = table.get? key := by
  have hd' : table'.keys.Nodup := (h.map Prod.fst).nodup_iff.2 hd
  refine Option.ext fun value => ?_
  rw [get?_eq_some_iff_mem hd', get?_eq_some_iff_mem hd]
  exact h.mem_iff

theorem get?_map (f : ν → μ) (table : Table κ ν) (key : κ) :
    get? (table.map fun e => (e.1, f e.2)) key = (table.get? key).map f := by
  induction table with
  | nil => rfl
  | cons e table ih =>
    obtain ⟨k, v⟩ := e
    rw [List.map_cons, get?_cons, get?_cons, ih]
    split <;> rfl

omit [DecidableEq κ] [BEq κ] [LawfulBEq κ] in
theorem nodup_keys_filter (hd : table.keys.Nodup) (p : ν → Bool) : (keys (table.filter fun e => p e.2)).Nodup :=
  hd.sublist (List.filter_sublist.map Prod.fst)

theorem get?_filter (hd : table.keys.Nodup) (p : ν → Bool) (key : κ) :
    get? (table.filter fun e => p e.2) key = (table.get? key).filter p := by
  refine Option.ext fun value => ?_
  rw [get?_eq_some_iff_mem (nodup_keys_filter hd p), Option.filter_eq_some_iff, get?_eq_some_iff_mem hd, List.mem_filter]

/-! ## putting entries in -/

theorem get?_put (table : Table κ ν) (key : κ) (value : ν) (k : κ) :
    (table.put key value).get? k = if k = key then some value else table.get? k := by
  induction table with
  | nil => rw [put, get?_cons]
  | cons e table ih =>
    obtain ⟨k', v⟩ := e
    rw [put]
    by_cases heq : key = k'
    · rw [if_pos (beq_iff_eq.2 heq), ← heq, get?_cons, get?_cons]
      split <;> rfl
    · rw [if_neg (by simpa using heq), get?_cons, get?_cons, ih]
      by_cases hk : k = key
      · rw [if_pos hk, if_pos hk, if_neg (hk ▸ heq)]
      · rw [if_neg hk, if_neg hk]

theorem mem_keys_put (table : Table κ ν) (key : κ) (value : ν) (k : κ) :
    k ∈ (table.put key value).keys ↔ k = key ∨ k ∈ table.keys := by
  induction table with
  | nil => simp [put, keys]
  | cons e table ih =>
    obtain ⟨k', v⟩ := e
    rw [put]
    by_cases heq : key = k'
    · rw [if_pos (beq_iff_eq.2 heq), keys_cons, keys_cons, heq]
      simp
    · rw [if_neg (by simpa using heq), keys_cons, keys_cons, List.mem_cons, List.mem_cons, ih]
      exact or_left_comm

omit [DecidableEq κ] in
/-- A new key comes last. -/
theorem put_of_not_mem (h : key ∉ table.keys) (value : ν) : table.put key value = table ++ [(key, value)] := by
  induction table with
  | nil => rfl
  | cons e table ih =>
    obtain ⟨k, v⟩ := e
    have hkey : key ≠ k := fun heq => h (by simp [keys, heq])
    rw [put, if_neg (by simpa using hkey), ih fun hmem => h (List.mem_cons_of_mem _ hmem)]
    rfl

omit [DecidableEq κ] [LawfulBEq κ] in
theorem update_cons (table : Table κ ν) (e : κ × ν) (new : Table κ ν) :
    table.update (e :: new) = (table.put e.1 e.2).update new := rfl

/-- Of several values for one key the last one counts. -/
theorem get?_update (table new : Table κ ν) (key : κ) :
    (table.update new).get? key = (get? new.reverse key).or (table.get? key) := by
  induction new generalizing table with
  | nil => rfl
  | cons e new ih =>
    have hreverse : get? (new.reverse ++ [e]) key = (get? new.reverse key).or (get? [e] key) := List.lookup_append
    rw [update_cons, ih, get?_put, List.reverse_cons, hreverse, get?_cons, Option.or_assoc]
    split <;> rfl

theorem mem_keys_update (table new : Table κ ν) (key : κ) :
    key ∈ (table.update new).keys ↔ key ∈ keys new ∨ key ∈ table.keys := by
  induction new generalizing table with
  | nil => simp [update, keys]
  | cons e new ih =>
    rw [update_cons, ih, mem_keys_put, keys_cons, List.mem_cons, or_left_comm, or_assoc]

omit [DecidableEq κ] in
/-- New keys come last, in their order. -/
theorem update_of_nodup {table new : Table κ ν} (h : (keys (table ++ new)).Nodup) : table.update new = table ++ new := by
  induction new generalizing table with
  | nil => simp [update]
  | cons e new ih =>
    have hnew : e.1 ∉ table.keys := by
      intro hmem
      rw [keys, List.map_append] at h
      exact (List.nodup_append.1 h).2.2 e.1 hmem e.1 (by simp) rfl
    rw [List.append_cons] at h ⊢
    rw [update_cons, put_of_not_mem hnew, ih h]

theorem get?_ofList (entries : Table κ ν) (key : κ) : get? (ofList entries) key = get? entries.reverse key := by
  have hempty : get? ([] : Table κ ν) key = none := rfl
  rw [ofList, get?_update, hempty, Option.or_none]

omit [DecidableEq κ] in
/-- A key that is there keeps its place. -/
theorem keys_put_of_mem (h : key ∈ table.keys) (value : ν) : (table.put key value).keys = table.keys := by
  induction table with
  | nil => cases h
  | cons e table ih =>
    obtain ⟨k, v⟩ := e
    rw [put]
    by_cases heq : key = k
    · rw [if_pos (beq_iff_eq.2 heq), keys_cons, keys_cons]
    · have hmem : key ∈ keys table := (List.mem_cons.1 h).resolve_left heq
      rw [if_neg (by simpa using heq), keys_cons, keys_cons, ih hmem]

omit [DecidableEq κ] [BEq κ] [LawfulBEq κ] in
theorem nodup_keys_snoc (h : key ∉ table.keys) (hd : table.keys.Nodup) (value : ν) :
    (keys (table ++ [(key, value)])).Nodup := by
  rw [keys, List.map_append]
  refine List.nodup_append.2 ⟨hd, by simp, fun k hk k' hk' heq => ?_⟩
  have hkey : k = key := heq.trans (List.eq_of_mem_singleton hk')
  exact h (hkey ▸ hk)

omit [DecidableEq κ] in
theorem nodup_keys_put (hd : table.keys.Nodup) (key : κ) (value : ν) : (table.put key value).keys.Nodup := by
  by_cases h : key ∈ table.keys
  · rwa [keys_put_of_mem h]
  · rw [put_of_not_mem h]
    exact nodup_keys_snoc h hd value

omit [DecidableEq κ] in
theorem nodup_keys_update (hd : table.keys.Nodup) (new : Table κ ν) : (table.update new).keys.Nodup := by
  induction new generalizing table with
  | nil => exact hd
  | cons e new ih => exact ih (nodup_keys_put hd e.1 e.2)

omit [DecidableEq κ] in
theorem nodup_keys_ofList (entries : Table κ ν) : (ofList entries).keys.Nodup := by
  have hempty : (keys ([] : Table κ ν)).Nodup := List.nodup_nil
  exact nodup_keys_update hempty entries

end Table

end UriTemplate
