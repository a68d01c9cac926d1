import Mathlib.Data.List.TakeWhile
import SilenceWatch.Library.Numerals
import SilenceWatch.Library.Percent

/-!
# Trees in forms

A form holds pairs of texts. A tree is written into one by naming each of its leaves with the
way to it, the names and positions on the way in brackets. Trees without empty branches, whose
names cannot be taken for positions, are told apart by their forms.
-/

namespace FormTree

/-- What is sent under one name: a text, a list, or values under names of their own. -/
inductive Tree
  | absent
  | leaf (text : List Char)
  | array (items : List Tree)
  | object (fields : List (List Char × Tree))

/-- One step on the way to a leaf. -/
def bracket (name : List Char) : List Char := '[' :: (name ++ [']'])

/-- The name of a position. -/
def position (i : ℕ) : List Char := Nat.toDigits 10 i

mutual

/-- The leaves of a tree, each with the way to it. -/
def pairs (key : List Char) : Tree → List (List Char × List Char)
  | .absent => []
  | .leaf text => [(key, text)]
  | .array items => pairsOfItems key 0 items
  | .object fields => pairsOfFields key fields

/-- The leaves of a list, from a position on. -/
def pairsOfItems (key : List Char) : ℕ → List Tree → List (List Char × List Char)
  | _, [] => []
  | i, item :: rest => pairs (key ++ bracket (position i)) item ++ pairsOfItems key (i + 1) rest

/-- The leaves under the names of an object. -/
def pairsOfFields (key : List Char) : List (List Char × Tree) → List (List Char × List Char)
  | [] => []
  | (name, value) :: rest => pairs (key ++ bracket name) value ++ pairsOfFields key rest

end

/-- The text of a form of trees. -/
def print (fields : List (List Char × Tree)) : List Char :=
  Percent.printForm (fields.flatMap fun field => pairs field.1 field.2)

/-- A name that is no position and has no bracket. -/
def Named (name : List Char) : Prop :=
  name ≠ [] ∧ ∀ c ∈ name, c ≠ '[' ∧ c ≠ ']' ∧ c.isDigit = false

instance Named.decidable : DecidablePred Named := fun name =>
  @instDecidableAnd _ _ inferInstance (List.decidableBAll _ name)

/-- No branch is empty, and the fields of an object have names of their own. -/
inductive Full : Tree → Prop
  | leaf (text : List Char) : Full (.leaf text)
  | array {items : List Tree} (hne : items ≠ []) (hitems : ∀ item ∈ items, Full item) :
    Full (.array items)
  | object {fields : List (List Char × Tree)} (hne : fields ≠ [])
    (hdistinct : (fields.map Prod.fst).Nodup)
    (hnames : ∀ field ∈ fields, Named field.1) (hfields : ∀ field ∈ fields, Full field.2) :
    Full (.object fields)

/-- The first name after a key on the way to a leaf. -/
def segment (key way : List Char) : List Char := (way.drop (key.length + 1)).takeWhile (· != ']')

/-- A list that begins with the items of one key and goes on with those of others is cut in one
way. -/
theorem append_inj_of_key {α β : Type*} [DecidableEq β] {f : α → β} {a : β}
    {xs ys xs' ys' : List α}
    (hxs : ∀ x ∈ xs, f x = a) (hys : ∀ y ∈ ys, f y ≠ a) (hxs' : ∀ x ∈ xs', f x = a)
    (hys' : ∀ y ∈ ys', f y ≠ a) (h : xs ++ ys = xs' ++ ys') : xs = xs' ∧ ys = ys' := by
  have hcut : ∀ us vs : List α, (∀ u ∈ us, f u = a) → (∀ v ∈ vs, f v ≠ a) →
      (us ++ vs).filter (fun x => f x = a) = us := by
    intro us vs hus hvs
    rw [List.filter_append, List.filter_eq_self.mpr fun u hu => decide_eq_true (hus u hu),
      List.filter_eq_nil_iff.mpr fun v hv => by simpa using hvs v hv, List.append_nil]
  have hfirst : xs = xs' := by
    rw [← hcut xs ys hxs hys, h, hcut xs' ys' hxs' hys']
  refine ⟨hfirst, ?_⟩
  rw [hfirst] at h
  exact List.append_cancel_left h

section Ways

variable {key name : List Char} {t : Tree} {p : List Char × List Char}

theorem position_injective : Function.Injective position := by
  intro i j h
  have hvalue := congrArg (Numeral.value 10) h
  rwa [position, position, Numeral.value_toDigits (by decide) (by decide),
    Numeral.value_toDigits (by decide) (by decide)] at hvalue

theorem isDigit_of_mem_position {i : ℕ} {c : Char} (hc : c ∈ position i) : c.isDigit = true :=
  Nat.isDigit_of_mem_toDigits (by decide) (by decide) hc

theorem not_mem_position (i : ℕ) : ']' ∉ position i := by
  intro h
  exact absurd (isDigit_of_mem_position h) (by decide)

theorem Named.not_mem (h : Named name) : ']' ∉ name := fun hmem => (h.2 _ hmem).2.1 rfl

/-- A position is no name. -/
theorem Named.ne_position (h : Named name) (i : ℕ) : name ≠ position i := by
  intro heq
  obtain ⟨c, hc⟩ := List.exists_mem_of_ne_nil _ h.1
  have hdigit := isDigit_of_mem_position (heq ▸ hc)
  rw [(h.2 c hc).2.2] at hdigit
  cases hdigit

mutual

/-- Every leaf lies on the way that its tree lies on. -/
theorem prefix_of_mem_pairs (key : List Char) :
    (t : Tree) → ∀ p ∈ pairs key t, key <+: p.1
  | .absent => fun p hp => absurd hp (by simp [pairs])
  | .leaf text => fun p hp => by
    rw [pairs, List.mem_singleton] at hp
    subst hp
    exact List.prefix_rfl
  | .array items => fun p hp => by
    rw [pairs] at hp
    exact prefix_of_mem_items key 0 items p hp
  | .object fields => fun p hp => by
    rw [pairs] at hp
    exact prefix_of_mem_fields key fields p hp

theorem prefix_of_mem_items (key : List Char) :
    (i : ℕ) → (items : List Tree) → ∀ p ∈ pairsOfItems key i items, key <+: p.1
  | _, [] => fun p hp => absurd hp (by simp [pairsOfItems])
  | i, item :: rest => fun p hp => by
    rw [pairsOfItems, List.mem_append] at hp
    rcases hp with hp | hp
    · exact (List.prefix_append _ _).trans (prefix_of_mem_pairs _ item p hp)
    · exact prefix_of_mem_items key (i + 1) rest p hp

theorem prefix_of_mem_fields (key : List Char) :
    (fields : List (List Char × Tree)) → ∀ p ∈ pairsOfFields key fields, key <+: p.1
  | [] => fun p hp => absurd hp (by simp [pairsOfFields])
  | (name, value) :: rest => fun p hp => by
    rw [pairsOfFields, List.mem_append] at hp
    rcases hp with hp | hp
    · exact (List.prefix_append _ _).trans (prefix_of_mem_pairs _ value p hp)
    · exact prefix_of_mem_fields key rest p hp

end

/-- The leaves under a name have it as the next step of their ways. -/
theorem segment_of_mem_pairs (hname : ']' ∉ name) (hp : p ∈ pairs (key ++ bracket name) t) :
    segment key p.1 = name := by
  obtain ⟨rest, hrest⟩ := prefix_of_mem_pairs _ t p hp
  have hway : p.1 = key ++ '[' :: (name ++ ']' :: rest) := by
    rw [← hrest, bracket]
    simp
  have hdrop : p.1.drop (key.length + 1) = name ++ ']' :: rest := by
    rw [hway, ← List.drop_drop, List.drop_left, List.drop_succ_cons, List.drop_zero]
  have hclear : ∀ c ∈ name, (c != ']') = true := by
    intro c hc
    rw [bne_iff_ne]
    intro heq
    exact hname (heq ▸ hc)
  rw [segment, hdrop, List.takeWhile_append_of_pos hclear, List.takeWhile_cons_of_neg (by decide),
    List.append_nil]

theorem segment_of_mem_items {i : ℕ} {items : List Tree} (hp : p ∈ pairsOfItems key i items) :
    ∃ j, i ≤ j ∧ segment key p.1 = position j := by
  induction items generalizing i with
  | nil => exact absurd hp (by simp [pairsOfItems])
  | cons item rest ih =>
    rw [pairsOfItems, List.mem_append] at hp
    rcases hp with hp | hp
    · exact ⟨i, Nat.le_refl i, segment_of_mem_pairs (not_mem_position i) hp⟩
    · obtain ⟨j, hj, hsegment⟩ := ih hp
      exact ⟨j, by omega, hsegment⟩

/-- A full tree has a leaf. -/
theorem Full.pairs_ne_nil (h : Full t) (key : List Char) : pairs key t ≠ [] := by
  induction h generalizing key with
  | leaf text => simp [pairs]
  | array hne hitems ih =>
    obtain ⟨item, rest, rfl⟩ := List.exists_cons_of_ne_nil hne
    rw [pairs, pairsOfItems]
    exact List.append_ne_nil_of_left_ne_nil (ih item List.mem_cons_self _) _
  | object hne hdistinct hnames hfields ih =>
    obtain ⟨⟨name, value⟩, rest, rfl⟩ := List.exists_cons_of_ne_nil hne
    rw [pairs, pairsOfFields]
    exact List.append_ne_nil_of_left_ne_nil (ih (name, value) List.mem_cons_self _) _

end Ways

section Injective

variable {key : List Char}

/-- The form of `t` is that of no other full tree. -/
def TellsApart (t : Tree) : Prop :=
  ∀ key t', Full t' → pairs key t = pairs key t' → t = t'

/-- Lists are told apart as their items are. -/
theorem items_injective {items items' : List Tree} (htells : ∀ item ∈ items, TellsApart item)
    (hfull : ∀ item ∈ items, Full item) (hfull' : ∀ item ∈ items', Full item) {i : ℕ}
    (h : pairsOfItems key i items = pairsOfItems key i items') : items = items' := by
  induction items generalizing items' i with
  | nil =>
    cases items' with
    | nil => rfl
    | cons item' rest' =>
      rw [pairsOfItems, pairsOfItems] at h
      have hempty := (List.append_eq_nil_iff.mp h.symm).1
      exact absurd hempty ((hfull' item' List.mem_cons_self).pairs_ne_nil _)
  | cons item rest ih =>
    cases items' with
    | nil =>
      rw [pairsOfItems, pairsOfItems] at h
      have hempty := (List.append_eq_nil_iff.mp h).1
      exact absurd hempty ((hfull item List.mem_cons_self).pairs_ne_nil _)
    | cons item' rest' =>
      rw [pairsOfItems, pairsOfItems] at h
      have hhead : ∀ (item : Tree), ∀ p ∈ pairs (key ++ bracket (position i)) item,
          segment key p.1 = position i := fun item p hp =>
        segment_of_mem_pairs (not_mem_position i) hp
      have hlater : ∀ (rest : List Tree), ∀ p ∈ pairsOfItems key (i + 1) rest,
          segment key p.1 ≠ position i := by
        intro rest p hp heq
        obtain ⟨j, hj, hsegment⟩ := segment_of_mem_items hp
        have hij := position_injective (hsegment.symm.trans heq)
        omega
      obtain ⟨hfirst, hrest⟩ := append_inj_of_key (hhead item) (hlater rest) (hhead item')
        (hlater rest') h
      have hitem := htells item List.mem_cons_self _ _ (hfull' item' List.mem_cons_self) hfirst
      have hothers := ih (fun item hmem => htells item (List.mem_cons_of_mem _ hmem))
        (fun item hmem => hfull item (List.mem_cons_of_mem _ hmem))
        (fun item hmem => hfull' item (List.mem_cons_of_mem _ hmem)) hrest
      rw [hitem, hothers]

/-- The leaves of named trees, each name with the way to its tree. -/
def leaves (way : List Char → List Char) (fields : List (List Char × Tree)) :
    List (List Char × List Char) :=
  fields.flatMap fun field => pairs (way field.1) field.2

theorem leaves_cons {way : List Char → List Char} {name : List Char} {value : Tree}
    {rest : List (List Char × Tree)} :
    leaves way ((name, value) :: rest) = pairs (way name) value ++ leaves way rest :=
  List.flatMap_cons

theorem pairsOfFields_eq (fields : List (List Char × Tree)) :
    pairsOfFields key fields = leaves (fun name => key ++ bracket name) fields := by
  induction fields with
  | nil => rfl
  | cons field rest ih =>
    obtain ⟨name, value⟩ := field
    rw [pairsOfFields, leaves_cons, ih]

/-- The names of trees can be told from the ways to their leaves. -/
def Tells (way step : List Char → List Char) : Prop :=
  ∀ name t, Named name → ∀ p ∈ pairs (way name) t, step p.1 = name

theorem tells_bracket (key : List Char) : Tells (fun name => key ++ bracket name) (segment key) :=
  fun _ _ hname _ hp => segment_of_mem_pairs hname.not_mem hp

theorem step_of_mem_leaves {way step : List Char → List Char} (htells : Tells way step)
    {fields : List (List Char × Tree)} (hnames : ∀ field ∈ fields, Named field.1)
    {p : List Char × List Char} (hp : p ∈ leaves way fields) :
    step p.1 ∈ fields.map Prod.fst := by
  obtain ⟨field, hfield, hmem⟩ := List.mem_flatMap.mp hp
  rw [htells field.1 field.2 (hnames field hfield) p hmem]
  exact List.mem_map_of_mem hfield

/-- Named trees are told apart where the trees are. -/
theorem leaves_injective {way step : List Char → List Char} (hway : Tells way step)
    {fields fields' : List (List Char × Tree)} (htells : ∀ field ∈ fields, TellsApart field.2)
    (hdistinct : (fields.map Prod.fst).Nodup)
    (hnames : ∀ field ∈ fields, Named field.1) (hfull : ∀ field ∈ fields, Full field.2)
    (hdistinct' : (fields'.map Prod.fst).Nodup)
    (hnames' : ∀ field ∈ fields', Named field.1) (hfull' : ∀ field ∈ fields', Full field.2)
    (h : leaves way fields = leaves way fields') : fields = fields' := by
  induction fields generalizing fields' with
  | nil =>
    cases fields' with
    | nil => rfl
    | cons field' rest' =>
      rw [leaves_cons] at h
      have hempty := (List.append_eq_nil_iff.mp h.symm).1
      exact absurd hempty ((hfull' field' List.mem_cons_self).pairs_ne_nil _)
  | cons field rest ih =>
    obtain ⟨name, value⟩ := field
    have hname : Named name := hnames (name, value) List.mem_cons_self
    have hvalue : Full value := hfull (name, value) List.mem_cons_self
    cases fields' with
    | nil =>
      rw [leaves_cons] at h
      have hempty := (List.append_eq_nil_iff.mp h).1
      exact absurd hempty (hvalue.pairs_ne_nil _)
    | cons field' rest' =>
      obtain ⟨name', value'⟩ := field'
      have hname' : Named name' := hnames' (name', value') List.mem_cons_self
      have hvalue' : Full value' := hfull' (name', value') List.mem_cons_self
      rw [leaves_cons, leaves_cons] at h
      -- The first leaf of each says the name of its first field.
      have hsame : name = name' := by
        obtain ⟨p, more, hp⟩ := List.exists_cons_of_ne_nil (hvalue.pairs_ne_nil (way name))
        obtain ⟨p', more', hp'⟩ := List.exists_cons_of_ne_nil (hvalue'.pairs_ne_nil (way name'))
        rw [hp, hp', List.cons_append, List.cons_append, List.cons.injEq] at h
        have hstep := hway name value hname p (hp ▸ List.mem_cons_self)
        have hstep' := hway name' value' hname' p' (hp' ▸ List.mem_cons_self)
        rw [← hstep, ← hstep', h.1]
      subst hsame
      have hlater : ∀ {rest : List (List Char × Tree)}, name ∉ rest.map Prod.fst →
          (∀ field ∈ rest, Named field.1) → ∀ p ∈ leaves way rest, step p.1 ≠ name := by
        intro rest hnew hnames p hp heq
        exact hnew (heq ▸ step_of_mem_leaves hway hnames hp)
      have hcons := List.nodup_cons.mp hdistinct
      have hcons' := List.nodup_cons.mp hdistinct'
      obtain ⟨hfirst, hrest⟩ := append_inj_of_key (hway name value hname)
        (hlater hcons.1 fun field hf => hnames field (List.mem_cons_of_mem _ hf))
        (hway name value' hname)
        (hlater hcons'.1 fun field hf => hnames' field (List.mem_cons_of_mem _ hf)) h
      have hsame := htells (name, value) List.mem_cons_self _ _ hvalue' hfirst
      have hothers := ih (fun field hf => htells field (List.mem_cons_of_mem _ hf)) hcons.2
        (fun field hf => hnames field (List.mem_cons_of_mem _ hf))
        (fun field hf => hfull field (List.mem_cons_of_mem _ hf)) hcons'.2
        (fun field hf => hnames' field (List.mem_cons_of_mem _ hf))
        (fun field hf => hfull' field (List.mem_cons_of_mem _ hf)) hrest
      rw [hothers]
      exact congrArg (fun value => (name, value) :: rest') hsame

/-- A leaf lies on its tree's way, those of a branch further on. -/
theorem leaf_ne_branch {text : List Char} {ps : List (List Char × List Char)}
    (hfurther : ∀ p ∈ ps, ∃ rest, p.1 = key ++ '[' :: rest) : [(key, text)] ≠ ps := by
  intro h
  obtain ⟨rest, hrest⟩ := hfurther (key, text) (h ▸ List.mem_singleton_self _)
  have hlength := congrArg List.length hrest
  rw [List.length_append, List.length_cons] at hlength
  dsimp only at hlength
  omega

theorem further_of_bracket {name : List Char} {t : Tree} {p : List Char × List Char}
    (hp : p ∈ pairs (key ++ bracket name) t) : ∃ rest, p.1 = key ++ '[' :: rest := by
  obtain ⟨rest, hrest⟩ := prefix_of_mem_pairs _ t p hp
  exact ⟨name ++ ']' :: rest, by rw [← hrest, bracket]; simp⟩

theorem further_of_mem_items {i : ℕ} {items : List Tree} {p : List Char × List Char}
    (hp : p ∈ pairsOfItems key i items) : ∃ rest, p.1 = key ++ '[' :: rest := by
  induction items generalizing i with
  | nil => exact absurd hp (by simp [pairsOfItems])
  | cons item rest ih =>
    rw [pairsOfItems, List.mem_append] at hp
    rcases hp with hp | hp
    · exact further_of_bracket hp
    · exact ih hp

theorem further_of_mem_fields {fields : List (List Char × Tree)} {p : List Char × List Char}
    (hp : p ∈ pairsOfFields key fields) : ∃ rest, p.1 = key ++ '[' :: rest := by
  induction fields with
  | nil => exact absurd hp (by simp [pairsOfFields])
  | cons field rest ih =>
    rw [pairsOfFields, List.mem_append] at hp
    rcases hp with hp | hp
    · exact further_of_bracket hp
    · exact ih hp

/-- A list is no object: its first leaf says a position where that of an object says a name. -/
theorem items_ne_fields {items : List Tree} {fields : List (List Char × Tree)} (hne : items ≠ [])
    (hitems : ∀ item ∈ items, Full item) (hnames : ∀ field ∈ fields, Named field.1) :
    pairsOfItems key 0 items ≠ pairsOfFields key fields := by
  intro h
  have hleaf : pairsOfItems key 0 items ≠ [] := by
    obtain ⟨item, rest, rfl⟩ := List.exists_cons_of_ne_nil hne
    rw [pairsOfItems]
    exact List.append_ne_nil_of_left_ne_nil ((hitems item List.mem_cons_self).pairs_ne_nil _) _
  obtain ⟨p, hp⟩ := List.exists_mem_of_ne_nil _ hleaf
  obtain ⟨j, _, hposition⟩ := segment_of_mem_items hp
  rw [h, pairsOfFields_eq] at hp
  have hname := step_of_mem_leaves (tells_bracket key) hnames hp
  obtain ⟨field, hfield, heq⟩ := List.mem_map.mp hname
  exact (hnames field hfield).ne_position j (heq.trans hposition)

/-- **Trees.** Full trees under one name are told apart by their leaves. -/
theorem pairs_injective {t : Tree} (h : Full t) : TellsApart t := by
  induction h with
  | leaf text =>
    intro key t' ht' hsame
    cases ht' with
    | leaf text' =>
      simp only [pairs, List.cons.injEq, Prod.mk.injEq, true_and, and_true] at hsame
      rw [hsame]
    | array hne' hitems =>
      rw [pairs, pairs] at hsame
      exact absurd hsame (leaf_ne_branch fun p hp => further_of_mem_items hp)
    | object hne' hdistinct hnames hfields =>
      rw [pairs, pairs] at hsame
      exact absurd hsame (leaf_ne_branch fun p hp => further_of_mem_fields hp)
  | array hne hitems ih =>
    intro key t' ht' hsame
    cases ht' with
    | leaf text' =>
      rw [pairs, pairs] at hsame
      exact absurd hsame.symm (leaf_ne_branch fun p hp => further_of_mem_items hp)
    | array hne' hitems' =>
      rw [pairs, pairs] at hsame
      rw [items_injective ih hitems hitems' hsame]
    | object hne' hdistinct hnames hfields =>
      rw [pairs, pairs] at hsame
      exact absurd hsame (items_ne_fields hne hitems hnames)
  | object hne hdistinct hnames hfields ih =>
    intro key t' ht' hsame
    cases ht' with
    | leaf text' =>
      rw [pairs, pairs] at hsame
      exact absurd hsame.symm (leaf_ne_branch fun p hp => further_of_mem_fields hp)
    | array hne' hitems =>
      rw [pairs, pairs] at hsame
      exact absurd hsame.symm (items_ne_fields hne' hitems hnames)
    | object hne' hdistinct' hnames' hfields' =>
      rw [pairs, pairs, pairsOfFields_eq, pairsOfFields_eq] at hsame
      rw [leaves_injective (tells_bracket key) ih hdistinct hnames hfields hdistinct' hnames'
        hfields' hsame]

/-- Everything on the way to a leaf of a tree is in brackets. -/
theorem further_of_mem_pairs {t : Tree} {p : List Char × List Char} (hp : p ∈ pairs key t) :
    p.1 = key ∨ ∃ rest, p.1 = key ++ '[' :: rest := by
  cases t with
  | absent => exact absurd hp (by simp [pairs])
  | leaf text =>
    rw [pairs, List.mem_singleton] at hp
    exact Or.inl (by rw [hp])
  | array items =>
    rw [pairs] at hp
    exact Or.inr (further_of_mem_items hp)
  | object fields =>
    rw [pairs] at hp
    exact Or.inr (further_of_mem_fields hp)

/-- The name of a form is what stands before the first bracket. -/
theorem tells_name : Tells (fun name => name) fun way => way.takeWhile (· != '[') := by
  intro name t hname p hp
  have hclear : ∀ c ∈ name, (c != '[') = true := fun c hc => by simpa using (hname.2 c hc).1
  change p.1.takeWhile (· != '[') = name
  rcases further_of_mem_pairs hp with heq | ⟨rest, heq⟩
  · rw [heq]
    exact List.takeWhile_eq_self_iff.mpr hclear
  · rw [heq, List.takeWhile_append_of_pos hclear, List.takeWhile_cons_of_neg (by decide),
      List.append_nil]

/-- **Forms.** Forms of full trees under names of their own are told apart. -/
theorem print_injective {fields fields' : List (List Char × Tree)}
    (h : Full (.object fields)) (h' : Full (.object fields'))
    (hsame : print fields = print fields') : fields = fields' := by
  cases h with
  | object _ hdistinct hnames hfull =>
    cases h' with
    | object _ hdistinct' hnames' hfull' =>
      exact leaves_injective tells_name (fun field hf => pairs_injective (hfull field hf)) hdistinct
        hnames hfull hdistinct' hnames' hfull' (Percent.printForm_injective hsame)

end Injective

end FormTree
