import GroupCalendar.Store.Memory
import Mathlib.Data.List.Basic

/-! # Contents of tables

A table is determined by what it holds under each key. Tables are overlaid by rows and lose keys,
and a list of writes is followed key by key. A table is keyed by an attribute if each item stands
under the text that it has there.
-/

namespace GroupCalendar

namespace Fields

variable {α : Type}

theorem get?_eq_some_iff {fs : Fields α} (hs : fs.Sorted) {name : String} {value : α} :
    fs.get? name = some value ↔ (name, value) ∈ fs := by
  induction fs with
  | nil => simp [get?]
  | cons f rest ih =>
    obtain ⟨k, v⟩ := f
    obtain ⟨hlt, hs⟩ := List.pairwise_cons.1 hs
    simp only [get?, List.mem_cons, Prod.mk.injEq]
    split
    · next hk =>
      subst hk
      have hn : (k, value) ∉ rest := fun h => String.lt_irrefl k (hlt (k, value) h)
      simp [hn, eq_comm]
    · next hk => simp [ih hs, Ne.symm hk]

instance (fs : Fields α) : Decidable fs.Sorted :=
  inferInstanceAs (Decidable (List.Pairwise _ _))

theorem Sorted.nodup {fs : Fields α} (hs : fs.Sorted) : fs.Nodup := by
  refine List.Pairwise.imp ?_ hs
  rintro a _ h rfl
  exact String.lt_irrefl _ h

/-- Sorted fields with the same value under every name are the same. -/
theorem Sorted.ext {fs gs : Fields α} (hf : fs.Sorted) (hg : gs.Sorted)
    (h : ∀ name, fs.get? name = gs.get? name) : fs = gs := by
  have hp : fs.Perm gs := by
    refine (List.perm_ext_iff_of_nodup hf.nodup hg.nodup).mpr fun ⟨name, value⟩ => ?_
    rw [← get?_eq_some_iff hf, ← get?_eq_some_iff hg, h]
  refine hp.eq_of_pairwise (fun _ _ _ _ hab hba => ?_) hf hg
  exact absurd (String.lt_trans hab hba) (String.lt_irrefl _)

section Overlay

theorem Sorted.overlay {fs : Fields α} (hs : fs.Sorted) (later : Fields α) :
    (fs.overlay later).Sorted := by
  induction later generalizing fs with
  | nil => exact hs
  | cons f rest ih => exact ih (sorted_insert hs)

/-- The fields under some names. -/
def select (fs : Fields α) (names : List String) : Fields α :=
  names.filterMap fun name => (fs.get? name).map (name, ·)

theorem get?_overlay_select (fs gs : Fields α) (names : List String) (name : String) :
    (fs.overlay (gs.select names)).get? name =
      if name ∈ names then (gs.get? name).or (fs.get? name) else fs.get? name := by
  induction names generalizing fs with
  | nil => simp [select, overlay]
  | cons n rest ih =>
    cases hg : gs.get? n with
    | none =>
      have hr : gs.select (n :: rest) = gs.select rest := by simp [select, hg]
      rw [hr, ih]
      by_cases hn : name = n
      · simp [hn, hg]
      · simp [hn]
    | some value =>
      have hr : gs.select (n :: rest) = (n, value) :: gs.select rest := by simp [select, hg]
      rw [hr]
      change ((fs.insert n value).overlay (gs.select rest)).get? name = _
      rw [ih, get?_insert]
      by_cases hn : n = name
      · subst hn
        simp [hg]
      · simp [hn, Ne.symm hn]

theorem get?_overlay_of_notMem {fs later : Fields α} {name : String} (h : name ∉ later.names) :
    (fs.overlay later).get? name = fs.get? name := by
  induction later generalizing fs with
  | nil => rfl
  | cons f rest ih =>
    obtain ⟨hn, hr⟩ := not_or.mp (mt List.mem_cons.mpr h)
    change ((fs.insert f.1 f.2).overlay rest).get? name = _
    rw [ih hr, get?_insert, if_neg (Ne.symm hn)]

theorem get?_overlay_of_mem (fs : Fields α) {later : Fields α} {name : String}
    (h : name ∈ later.names) :
    ∃ value, (name, value) ∈ later ∧ (fs.overlay later).get? name = some value := by
  induction later generalizing fs with
  | nil => simp [names] at h
  | cons f rest ih =>
    by_cases hr : name ∈ names rest
    · obtain ⟨value, hv, hg⟩ := ih (fs.insert f.1 f.2) hr
      exact ⟨value, List.mem_cons_of_mem _ hv, hg⟩
    · obtain rfl : name = f.1 := (List.mem_cons.mp h).resolve_right hr
      refine ⟨f.2, List.mem_cons_self, ?_⟩
      change ((fs.insert f.1 f.2).overlay rest).get? f.1 = _
      rw [get?_overlay_of_notMem hr, get?_insert_self]

/-- Where later fields have a name, the earlier ones do not count. -/
theorem get?_overlay_congr {fs gs later : Fields α} {name : String} (h : name ∈ later.names) :
    (fs.overlay later).get? name = (gs.overlay later).get? name := by
  induction later generalizing fs gs with
  | nil => cases h
  | cons f rest ih =>
    change ((fs.insert f.1 f.2).overlay rest).get? name =
      ((gs.insert f.1 f.2).overlay rest).get? name
    by_cases hr : name ∈ names rest
    · exact ih hr
    · obtain rfl : name = f.1 := (List.mem_cons.mp h).resolve_right hr
      rw [get?_overlay_of_notMem hr, get?_overlay_of_notMem hr, get?_insert_self, get?_insert_self]

end Overlay

end Fields

@[simp]
theorem Item.text?_key (name value : String) : (Item.key name value).text? name = some value := by
  simp [Item.key, Item.text?, Fields.get?, Attribute.text?]

namespace Store

namespace Table

theorem ext {t u : Table} (h : ∀ key, t.get? key = u.get? key) : t = u := by
  obtain ⟨rows, hr⟩ := t
  obtain ⟨rows', hr'⟩ := u
  obtain rfl : rows = rows' := hr.ext hr' h
  rfl

theorem mem_items {t : Table} {item : Item} : item ∈ t.items ↔ ∃ key, t.get? key = some item := by
  simp only [items, List.mem_map, get?, Fields.get?_eq_some_iff t.sorted, Prod.exists,
    exists_eq_right]

/-- Every item stands under its text of a name. -/
def Keyed (name : String) (t : Table) : Prop :=
  ∀ key item, t.get? key = some item → item.text? name = some key

theorem keyed_empty (name : String) : empty.Keyed name := by
  rintro key item ⟨⟩

section Overlay

/-- A table overlaid by rows, of which the last with a key counts. -/
def putAll (t : Table) (rows : Fields Item) : Table :=
  ⟨t.rows.overlay rows, t.sorted.overlay rows⟩

/-- A table without some keys. -/
def eraseAll (t : Table) (keys : List String) : Table :=
  keys.foldl erase t

/-- The rows of a table under some keys. -/
def rowsAt (t : Table) (keys : List String) : Fields Item :=
  t.rows.select keys

theorem get?_putAll_rowsAt (t u : Table) (keys : List String) (key : String) :
    (t.putAll (u.rowsAt keys)).get? key =
      if key ∈ keys then (u.get? key).or (t.get? key) else t.get? key :=
  Fields.get?_overlay_select t.rows u.rows keys key

theorem get?_eraseAll (t : Table) (keys : List String) (key : String) :
    (t.eraseAll keys).get? key = if key ∈ keys then none else t.get? key := by
  induction keys generalizing t with
  | nil => simp [eraseAll]
  | cons k rest ih =>
    change ((t.erase k).eraseAll rest).get? key = _
    rw [ih, get?_erase]
    by_cases hk : k = key
    · simp [hk]
    · simp [hk, Ne.symm hk]

theorem eraseAll_append (t : Table) (keys keys' : List String) :
    t.eraseAll (keys ++ keys') = (t.eraseAll keys).eraseAll keys' :=
  List.foldl_append

theorem isSome_get?_putAll {t : Table} {key : String} (h : (t.get? key).isSome)
    (rows : Fields Item) : ((t.putAll rows).get? key).isSome := by
  by_cases hm : key ∈ rows.names
  · obtain ⟨item, -, hi⟩ := Fields.get?_overlay_of_mem t.rows hm
    exact Option.isSome_of_eq_some hi
  · have hk : (t.putAll rows).get? key = t.get? key := Fields.get?_overlay_of_notMem hm
    rwa [hk]

/-- Rows that have been moved are not there to be moved again. -/
theorem putAll_rowsAt_append (t u : Table) (keys keys' : List String) :
    t.putAll (u.rowsAt (keys ++ keys')) =
      (t.putAll (u.rowsAt keys)).putAll ((u.eraseAll keys).rowsAt keys') := by
  refine ext fun key => ?_
  simp only [get?_putAll_rowsAt, get?_eraseAll, List.mem_append]
  by_cases h : key ∈ keys <;> by_cases h' : key ∈ keys' <;> simp [h, h']

theorem eraseAll_congr (t : Table) {keys keys' : List String} (h : ∀ k, k ∈ keys ↔ k ∈ keys') :
    t.eraseAll keys = t.eraseAll keys' :=
  ext fun key => by simp only [get?_eraseAll, h]

theorem putAll_rowsAt_congr (t u : Table) {keys keys' : List String}
    (h : ∀ k, k ∈ keys ↔ k ∈ keys') : t.putAll (u.rowsAt keys) = t.putAll (u.rowsAt keys') :=
  ext fun key => by simp only [get?_putAll_rowsAt, h]

end Overlay

end Table

section Writes

/-- The text under which a write finds its row. -/
def Write.key? (name : String) : Write → Option String
  | .put item | .delete item => item.text? name

/-- A table after a write; a write without a key has no effect. -/
def Write.applyTo (name : String) (w : Write) (t : Table) : Table :=
  match w with
  | .put item => (item.text? name).elim t fun key => t.insert key item
  | .delete item => (item.text? name).elim t t.erase

namespace Table

/-- A table after writes in their order. -/
def apply (name : String) (t : Table) (ws : List Write) : Table :=
  ws.foldl (fun t w => w.applyTo name t) t

theorem apply_append (name : String) (t : Table) (ws ws' : List Write) :
    t.apply name (ws ++ ws') = (t.apply name ws).apply name ws' :=
  List.foldl_append

/-- What stands under a key after writes: what stood there before them, or what was put last. -/
theorem get?_apply (name key : String) (t : Table) (ws : List Write) :
    ((t.apply name ws).get? key = t.get? key ∧ ∀ w ∈ ws, w.key? name ≠ some key) ∨
    (∃ item, .put item ∈ ws ∧ item.text? name = some key ∧
      (t.apply name ws).get? key = some item) ∨
    (∃ item, .delete item ∈ ws ∧ item.text? name = some key ∧
      (t.apply name ws).get? key = none) := by
  induction ws generalizing t with
  | nil => exact .inl ⟨rfl, by simp⟩
  | cons w rest ih =>
    change (((w.applyTo name t).apply name rest).get? key = _ ∧ _) ∨
      (∃ item, _ ∧ _ ∧ ((w.applyTo name t).apply name rest).get? key = _) ∨
      (∃ item, _ ∧ _ ∧ ((w.applyTo name t).apply name rest).get? key = _)
    rcases ih (w.applyTo name t) with ⟨hg, hn⟩ | ⟨item, hi, hk, hg⟩ | ⟨item, hi, hk, hg⟩
    · by_cases hw : w.key? name = some key
      · cases w with
        | put item =>
          refine .inr (.inl ⟨item, List.mem_cons_self, hw, ?_⟩)
          rw [hg, Write.applyTo, show item.text? name = some key from hw]
          simp [get?_insert]
        | delete item =>
          refine .inr (.inr ⟨item, List.mem_cons_self, hw, ?_⟩)
          rw [hg, Write.applyTo, show item.text? name = some key from hw]
          simp [get?_erase]
      · refine .inl ⟨?_, List.forall_mem_cons.mpr ⟨hw, hn⟩⟩
        rw [hg]
        cases w with
        | put item | delete item =>
          simp only [Write.applyTo]
          cases ht : item.text? name with
          | none => rfl
          | some other =>
            have ho : other ≠ key := fun e => hw (ht.trans (congrArg some e))
            simp [get?_insert, get?_erase, ho]
    · exact .inr (.inl ⟨item, List.mem_cons_of_mem _ hi, hk, hg⟩)
    · exact .inr (.inr ⟨item, List.mem_cons_of_mem _ hi, hk, hg⟩)

theorem Keyed.apply {name : String} {t : Table} (h : t.Keyed name) (ws : List Write) :
    (t.apply name ws).Keyed name := by
  intro key item hi
  rcases get?_apply name key t ws with ⟨hg, _⟩ | ⟨put, _, hk, hg⟩ | ⟨_, _, _, hg⟩
  · exact h key item (hg ▸ hi)
  · obtain rfl : put = item := Option.some.inj (hg.symm.trans hi)
    exact hk
  · exact absurd (hg.symm.trans hi) (by simp)

theorem apply_puts {name : String} (t : Table) {rows : Fields Item}
    (h : ∀ row ∈ rows, row.2.text? name = some row.1) :
    t.apply name (rows.map fun row => .put row.2) = t.putAll rows := by
  induction rows generalizing t with
  | nil => rfl
  | cons row rest ih =>
    obtain ⟨hk, hr⟩ := List.forall_mem_cons.mp h
    change (Write.applyTo name (.put row.2) t).apply name (rest.map _) =
      (t.insert row.1 row.2).putAll rest
    rw [ih _ hr, Write.applyTo, hk]
    rfl

theorem apply_deletes {name : String} (t : Table) (keys : List String) :
    t.apply name (keys.map fun key => .delete (Item.key name key)) = t.eraseAll keys := by
  induction keys generalizing t with
  | nil => rfl
  | cons key rest ih =>
    change (Write.applyTo name (.delete (Item.key name key)) t).apply name (rest.map _) =
      (t.erase key).eraseAll rest
    rw [ih, Write.applyTo, Item.text?_key]
    rfl

end Table

end Writes

end Store

end GroupCalendar
