import ObjectMemory.Proofs.Making

/-!
# Lists as rows of words

What the operations on lists do to the words of a list is said here for rows of words. Nothing is
assumed of the word that holds the count: an operation goes by the count it is given, and that is
never more than there are slots.
-/

namespace ObjectMemory

-- Sums of numbers start from the zero of the core library, also beside other instances.
attribute [local instance (2000)] Zero.ofOfNat0

/-! ## Rows of a list -/

namespace Content

/-- What spare slots hold. -/
def blank : Word := (Ref.int 0).toWord

/-- The payload words with another count. -/
def restated (words : List Word) (n : Nat) : List Word :=
  words.set 0 (Ref.ofCount n).toWord

/-- The payload words of a list of `n` items with one more. -/
def appended (words : List Word) (n : Nat) (item : Ref) : List Word :=
  restated (words.set (n + 1) item.toWord) (n + 1)

theorem length_appended (words : List Word) (n : Nat) (item : Ref) :
    (appended words n item).length = words.length := by
  rw [appended, restated, List.length_set, List.length_set]

/-- The payload words of a list of `n` items without item `i`. -/
def without (words : List Word) (i n : Nat) : List Word :=
  restated ((splice words i ((words.drop (i + 1)).take (n - i))).set n blank) (n - 1)

/-- Deleting the last of `n` items moves none. -/
theorem without_last (words : List Word) (n : Nat) :
    without words n n = restated (words.set n blank) (n - 1) := by
  rw [without, Nat.sub_self, List.take_zero, splice_nil]

/-- A list of the given words with no spare slots. -/
def ofItems (words : List Word) : Content where
  cls := .list
  words := (Ref.ofCount words.length).toWord :: words

/-- The payload words of a larger copy of a full list. -/
def enlarged (c : Content) : List Word :=
  Arena.grown c.words (c.capacity + ListObject.growth c.capacity + 1) blank

end Content

namespace ListObject

open Arena

variable {a b : Arena} {h : Handle} {i n : Nat}

/-! ## Changes to a list -/

theorem setCount_stored (hh : a.Holds h) (hlen : 0 < (a.view h).words.length) (n : Nat) :
    ∃ b, setCount h n a = .ok () b ∧ a.Stored h (Content.restated (a.view h).words n) b :=
  setField_stored hh hlen (Ref.ofCount n)

/-- Stores an item after the first `n` ones, and the new count. -/
def appendAt (h : Handle) (n : Nat) (item : Ref) : ArenaM Unit := do
  setField h (n + 1) item
  setCount h (n + 1)

theorem append_stored (hh : a.Holds h) (hn : n + 1 < (a.view h).words.length) (item : Ref) :
    ∃ b, appendAt h n item a = .ok () b ∧
      a.Stored h (Content.appended (a.view h).words n item) b := by
  obtain ⟨b, hitem, hb⟩ := setField_stored hh hn item
  have hlen := hb.length_eq hh
  obtain ⟨d, hcount, hd⟩ := setCount_stored (hb.holds hh) (by rw [hb.words]; omega) (n + 1)
  rw [hb.words] at hd
  refine ⟨d, ?_, hb.trans hd⟩
  rw [appendAt, bind_of_ok hitem]
  exact hcount

/-- Blanks slot `n` and states one item less. -/
def shrinkAt (h : Handle) (n : Nat) : ArenaM Unit := do
  setField h n (.int 0)
  setCount h (n - 1)

theorem shrink_stored (hh : a.Holds h) (hn : n < (a.view h).words.length) :
    ∃ b, shrinkAt h n a = .ok () b ∧
      a.Stored h (Content.restated ((a.view h).words.set n Content.blank) (n - 1)) b := by
  obtain ⟨b, hslot, hb⟩ := setField_stored hh hn (.int 0)
  have hlen := hb.length_eq hh
  obtain ⟨d, hcount, hd⟩ := setCount_stored (hb.holds hh) (by rw [hb.words]; omega) (n - 1)
  rw [hb.words] at hd
  refine ⟨d, ?_, hb.trans hd⟩
  rw [shrinkAt, bind_of_ok hslot]
  exact hcount

/-- **Deleting an item moves the later ones down by one slot.** -/
theorem deleteItem_stored (hh : a.Holds h) (hi : 1 ≤ i ∧ i ≤ n)
    (hn : n < (a.view h).words.length) :
    ∃ b, deleteItem h i n a = .ok () b ∧ a.Stored h (Content.without (a.view h).words i n) b := by
  have hrange : n - i = 0 ∨ i + 1 + (n - i) ≤ (a.view h).words.length ∧
      i + (n - i) ≤ (a.view h).words.length := by omega
  obtain ⟨b, hmove, hb⟩ := copyFields_stored hh hh hrange
  have hlen := hb.length_eq hh
  rw [← hb.words] at hlen
  obtain ⟨d, hshrink, hd⟩ := shrink_stored (hb.holds hh) (hlen ▸ hn)
  rw [hb.words] at hd
  refine ⟨d, ?_, hb.trans hd⟩
  rw [deleteItem, bind_of_ok hmove]
  exact hshrink

theorem clear_stored (hh : a.Holds h) :
    ∃ b, fillFields h 0 (a.view h).words.length (.int 0) a = .ok () b ∧
      a.Stored h (List.replicate (a.view h).words.length Content.blank) b := by
  have hrange : (a.view h).words.length ≤ 0 ∨
      (a.view h).words.length ≤ (a.view h).words.length := Or.inr (Nat.le_refl _)
  obtain ⟨b, hfill, hb⟩ := fillFields_stored hh hrange (.int 0)
  rw [Nat.sub_zero, splice_whole List.length_replicate] at hb
  exact ⟨b, hfill, hb⟩

theorem putAll_stored (hh : a.Holds h) (value : Ref) :
    ∃ b, fillFields h 1 ((a.view h).count + 1) value a = .ok () b ∧
      a.Stored h (splice (a.view h).words 1
        (List.replicate (a.view h).count value.toWord)) b := by
  have hcount := (a.view h).count_le
  unfold Content.capacity at hcount
  exact fillFields_stored hh (by omega) value

theorem fill_stored (hh : a.Holds h) (value : Ref) :
    ∃ b, fill h value a = .ok () b ∧
      a.Stored h (splice (a.view h).words 1
        (List.replicate ((a.view h).words.length - 1) value.toWord)) b := by
  obtain ⟨b, hfill, hb⟩ := fillFields_stored hh (Or.inr (Nat.le_refl _)) value
  refine ⟨b, ?_, hb⟩
  have hlook : look (·.payloadWords h) a = .ok (a.view h).words.length a :=
    look_of_ok (payloadWords_eq hh)
  rw [fill, bind_of_ok hlook]
  exact hfill

theorem storeFrom_stored (hh : a.Holds h) {items : List Ref}
    (hle : i + items.length ≤ (a.view h).words.length) :
    ∃ b, storeFrom h i items a = .ok () b ∧
      a.Stored h (splice (a.view h).words i (items.map Ref.toWord)) b := by
  induction items generalizing a i with
  | nil =>
    rw [List.map_nil, splice_nil]
    exact ⟨a, rfl, Stored.refl a h⟩
  | cons r rest ih =>
    rw [List.length_cons] at hle
    have hi : i < (a.view h).words.length := by omega
    obtain ⟨b, hfirst, hb⟩ := setField_stored hh hi r
    have hlen := hb.length_eq hh
    rw [← hb.words] at hlen
    obtain ⟨d, hrest, hd⟩ := ih (i := i + 1) (hb.holds hh) (by omega)
    rw [hb.words, splice_cons (by rw [List.length_map]; omega)] at hd
    refine ⟨d, ?_, hb.trans hd⟩
    rw [storeFrom, bind_of_ok hfirst]
    exact hrest

/-! ## New lists -/

/-- A count and items that are stored into a blank list are all of it. -/
theorem splice_restated {words : List Word} {fill : Word} (hlen : words.length = n) :
    splice (Content.restated (List.replicate (n + 1) fill) n) 1 words =
      (Content.ofItems words).words := by
  subst hlen
  simp [splice, Content.restated, Content.ofItems, List.replicate_succ, Nat.add_comm]

theorem ofItems_makes (items : List Ref) (a : Arena) :
    Makes (ofItems items) .fresh (.ofItems (items.map Ref.toWord)) a := by
  refine (allot_makes storable_list (items.length + 1) .false a).bind ?_ fun b hmade => ?_
  · simp
  · have hh := hmade.holds_new
    have hwords : (b.view ⟨a.used⟩).words = List.replicate (items.length + 1) Ref.false.toWord :=
      hmade.words
    obtain ⟨d, hcount, hd⟩ := setCount_stored hh (by simp [hwords]) items.length
    have hlen := hd.length_eq hh
    rw [← hd.words, hwords, List.length_replicate] at hlen
    have hfit : 1 + items.length ≤ (d.view ⟨a.used⟩).words.length := by omega
    obtain ⟨e, hstore, he⟩ := storeFrom_stored (hd.holds hh) hfit
    rw [hd.words, hwords, splice_restated (by rw [List.length_map])] at he
    refine ⟨e, ?_, hd.trans he⟩
    rw [bind_of_ok hcount, bind_of_ok hstore]
    rfl

theorem allotEmpty_makes (n : Nat) (a : Arena) :
    Makes (allotEmpty n) .fresh ⟨.list, List.replicate (max n minCapacity + 1) Content.blank⟩ a :=
  allot_makes storable_list _ (.int 0) a

/-- A capacity comes from a header, so the size of a larger list is no large number. -/
theorem enlarged_sized (hh : a.Holds h) :
    1 + ((a.view h).capacity + growth (a.view h).capacity + 1) ≤ Size.largest := by
  have hwords := wordsAt_le a.store h.index
  have hgrowth := growth_bounds (a.view h).capacity
  unfold Content.capacity maxPayloadWords at *
  rw [length_view hh] at *
  rw [Size.largest_eq]
  omega

theorem enlarge_makes (hh : a.Holds h) (hcls : (a.view h).cls = .list) :
    Makes (enlarge h (a.view h).capacity) (.largerList h) ⟨.list, (a.view h).enlarged⟩ a := by
  have hgrow := grow_makes hh (enlarged_sized hh) (.int 0)
  have hlen : (a.view h).enlarged.length =
      (a.view h).capacity + growth (a.view h).capacity + 1 := length_grown _ _ _
  rw [hcls] at hgrow
  unfold Makes at hgrow
  rw [length_grown] at hgrow
  refine makes_of_fits hlen (fun hfits => ?_) fun hfull => ?_
  · rw [if_pos hfits] at hgrow
    obtain ⟨b, hrun, hmade⟩ := hgrow
    have hlist := hmade.listGrown
    rw [length_grown] at hlist
    exact ⟨_, bind_of_ok hrun, hlist⟩
  · rw [if_neg hfull] at hgrow
    exact bind_of_error hgrow

theorem length_enlarged (c : Content) : c.enlarged.length = c.capacity + growth c.capacity + 1 :=
  length_grown _ _ _

/-- **A full list and one more item are a new list**, with room for more. -/
theorem enlargeAppend_makes (hh : a.Holds h) (hcls : (a.view h).cls = .list) (item : Ref) :
    Makes
      (do
        let copy ← enlarge h (a.view h).capacity
        appendAt copy (a.view h).count item
        return copy)
      (.largerList h)
      ⟨.list, Content.appended (a.view h).enlarged (a.view h).count item⟩ a := by
  have hcount := (a.view h).count_le
  have hgrowth := (growth_bounds (a.view h).capacity).1
  have hlen := length_enlarged (a.view h)
  refine (enlarge_makes hh hcls).bind ?_ fun b hmade => ?_
  · exact Content.length_appended _ _ item
  · have hwords : (b.view ⟨a.used⟩).words = (a.view h).enlarged := hmade.words
    have hroom : (a.view h).count + 1 < (b.view ⟨a.used⟩).words.length := by
      rw [hwords, hlen]
      omega
    obtain ⟨d, happend, hd⟩ := append_stored hmade.holds_new hroom item
    rw [hwords] at hd
    exact ⟨d, bind_of_ok happend, hd⟩

/-- A slice lies among the items, if there is anything in it. -/
theorem sliceOf_bounds (n : Nat) (first : Int) (last : Option Int) :
    (sliceOf n first last).2 = 0 ∨
      1 ≤ (sliceOf n first last).1 ∧
        (sliceOf n first last).1 + (sliceOf n first last).2 ≤ n + 1 := by
  cases last <;> simp only [sliceOf] <;> omega

/-- The words of the items from one place on. -/
theorem length_slice {c : Content} {start size : Nat}
    (hle : size = 0 ∨ 1 ≤ start ∧ start + size ≤ c.count + 1) :
    ((c.words.drop start).take size).length = size := by
  have hcount := c.count_le
  unfold Content.capacity at hcount
  rw [List.length_take, List.length_drop]
  omega

theorem copyFromTo_makes (hh : a.Holds h) (first : Int) (last : Option Int) :
    Makes (copyFromTo h first last) .fresh
      (.ofItems (((a.view h).words.drop (sliceOf (a.view h).count first last).1).take
        (sliceOf (a.view h).count first last).2)) a := by
  have hbounds := sliceOf_bounds (a.view h).count first last
  have hlook : look (count · h) a = .ok (a.view h).count a := look_of_ok (count_eq hh)
  generalize hslice : sliceOf (a.view h).count first last = part at hbounds
  obtain ⟨start, size⟩ := part
  have hlenP := length_slice hbounds
  refine makes_of_eq (bind_of_ok hlook) ?_
  simp only [hslice]
  refine (allot_makes storable_list (size + 1) (.int 0) a).bind ?_ fun b hmade => ?_
  · simp only [List.length_cons, hlenP, List.length_replicate]
  · have hnew := hmade.holds_new
    have hwords : (b.view ⟨a.used⟩).words = List.replicate (size + 1) Content.blank := hmade.words
    obtain ⟨d, hcount, hd⟩ := setCount_stored hnew (by simp [hwords]) size
    have hlenD := hd.length_eq hnew
    rw [← hd.words, hwords, List.length_replicate] at hlenD
    -- the source lies below the new list, so the stores into that leave it alone
    obtain ⟨hsource, hview, _⟩ := hmade.view_beside hd.toWroteIn hh
    have hrange : size = 0 ∨ start + size ≤ (d.view h).words.length ∧
        1 + size ≤ (d.view ⟨a.used⟩).words.length := by
      have hcap := (a.view h).count_le
      unfold Content.capacity at hcap
      rw [hview]
      dsimp only at hbounds
      omega
    obtain ⟨e, hcopy, he⟩ := copyFields_stored hsource (hd.holds hnew) hrange
    rw [hview, hd.words, hwords, splice_restated hlenP] at he
    refine ⟨e, ?_, hd.trans he⟩
    rw [bind_of_ok hcount, bind_of_ok hcopy]
    rfl

/-! ## Lists together -/

/-- **The items of lists that lie below are appended one list after the other.** -/
theorem appendFrom_stored {v : View} (hh : a.Holds h) {lists : List Handle}
    (hlists : ∀ g ∈ lists, a.Holds g ∧ a.view g = v g ∧ a.store.after g.index ≤ h.index)
    (hle : i + (lists.flatMap fun g => (v g).itemWords).length ≤ (a.view h).words.length) :
    ∃ b, appendFrom h i lists a = .ok () b ∧
      a.Stored h (splice (a.view h).words i (lists.flatMap fun g => (v g).itemWords)) b := by
  induction lists generalizing a i with
  | nil =>
    rw [List.flatMap_nil, splice_nil]
    exact ⟨a, rfl, Stored.refl a h⟩
  | cons g rest ih =>
    obtain ⟨hg, hview, _⟩ := hlists g List.mem_cons_self
    have hlen := (v g).length_itemWords
    have hcap := (v g).count_le
    unfold Content.capacity at hcap
    rw [List.flatMap_cons, List.length_append, hlen] at hle
    have hlook : look (count · g) a = .ok (v g).count a := by
      rw [← hview]
      exact look_of_ok (count_eq hg)
    have hrange : (v g).count = 0 ∨ 1 + (v g).count ≤ (a.view g).words.length ∧
        i + (v g).count ≤ (a.view h).words.length := by
      rw [hview]
      omega
    obtain ⟨b, hcopy, hb⟩ := copyFields_stored hg hh hrange
    rw [hview] at hb
    -- the other lists lie below as well, so they show the same after the copy
    have hrest : ∀ g' ∈ rest,
        b.Holds g' ∧ b.view g' = v g' ∧ b.store.after g'.index ≤ h.index := by
      intro g' hg'
      obtain ⟨hold, hshows, hbelow⟩ := hlists g' (List.mem_cons_of_mem g hg')
      obtain ⟨hold', hshows'⟩ := hb.view_apart hold (Or.inl hbelow)
      have hlt := a.store.lt_after g'.index
      refine ⟨hold', hshows'.trans hshows, ?_⟩
      rwa [Store.after_congr (hb.get g'.index (by omega))]
    have hsame := hb.length_eq hh
    obtain ⟨d, happend, hd⟩ := ih (i := i + (v g).count) (hb.holds hh) hrest
      (by rw [hb.words, hsame]; omega)
    refine ⟨d, ?_, ?_⟩
    · rw [appendFrom, bind_of_ok hlook, bind_of_ok hcopy]
      exact happend
    · rw [hb.words] at hd
      rw [List.flatMap_cons, ← splice_append (by rw [hlen]; omega), hlen]
      exact hb.trans hd

theorem counts_eq {lists : List Handle} (hlists : ∀ g ∈ lists, a.Holds g) :
    lists.mapM (count a) = .ok (lists.map fun g => (a.view g).count) := by
  induction lists with
  | nil => rfl
  | cons g rest ih =>
    rw [List.mapM_cons, count_eq (hlists g List.mem_cons_self),
      ih fun g' hg' => hlists g' (List.mem_cons_of_mem g hg')]
    rfl

/-- The counts add up to the number of all items. -/
theorem sum_counts (v : View) (lists : List Handle) :
    (lists.map fun g => (v g).count).sum = (lists.flatMap fun g => (v g).itemWords).length := by
  rw [List.length_flatMap]
  congr 1
  exact List.map_congr_left fun g _ => ((v g).length_itemWords).symm

theorem join_makes {lists : List Handle} (hlists : ∀ g ∈ lists, a.Holds g) :
    Makes (join lists) .fresh (.ofItems (lists.flatMap fun g => (a.view g).itemWords)) a := by
  have hlook : look (fun a => lists.mapM (count a)) a =
      .ok (lists.map fun g => (a.view g).count) a := look_of_ok (counts_eq hlists)
  have hsum := sum_counts a.view lists
  generalize (lists.map fun g => (a.view g).count) = counts at hlook hsum
  generalize hall : (lists.flatMap fun g => (a.view g).itemWords) = all at hsum
  refine makes_of_eq (bind_of_ok hlook) ?_
  refine (allot_makes storable_list (counts.sum + 1) (.int 0) a).bind ?_ fun b hmade => ?_
  · simp only [List.length_cons, hsum, List.length_replicate]
  · have hnew := hmade.holds_new
    have hwords : (b.view ⟨a.used⟩).words = List.replicate (counts.sum + 1) Content.blank :=
      hmade.words
    obtain ⟨d, hcount, hd⟩ := setCount_stored hnew (by simp [hwords]) counts.sum
    have hlen := hd.length_eq hnew
    rw [← hd.words, hwords, List.length_replicate] at hlen
    have hbelow : ∀ g ∈ lists,
        d.Holds g ∧ d.view g = a.view g ∧ d.store.after g.index ≤ a.used :=
      fun g hg => hmade.view_beside hd.toWroteIn (hlists g hg)
    obtain ⟨e, happend, he⟩ := appendFrom_stored (i := 1) (hd.holds hnew) hbelow
      (by rw [hall, hlen]; omega)
    rw [hd.words, hwords, hall, splice_restated hsum.symm] at he
    refine ⟨e, ?_, hd.trans he⟩
    rw [bind_of_ok hcount, bind_of_ok happend]
    rfl

end ListObject

end ObjectMemory
