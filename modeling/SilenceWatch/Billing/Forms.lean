import Mathlib.Data.List.Lex
import Mathlib.Data.List.Sort
import SilenceWatch.Library.CodePoints
import SilenceWatch.Library.FormTree
import SilenceWatch.Library.Idempotency

/-!
# What is sent to Stripe

The parameters of a request, the form they are sent as, and the key of a payment page: a digest
of the minute and of the parameters with their names in a fixed order. Two payment pages have
the same form exactly when the same is asked, and the same key when it is asked in one minute.
-/

namespace SilenceWatch

/-- A value among the parameters of a request. The fields of an object stand in the order of
`Object.entries`. -/
inductive Param where
  | null
  | bool (b : Bool)
  | number (n : ℕ)
  | text (content : List Char)
  | array (items : List Param)
  | object (fields : List (List Char × Param))

namespace Param

/-- `String(value)` of what is neither a list nor an object. -/
def boolText (b : Bool) : List Char := if b then "true".toList else "false".toList

mutual

/-- What `add` makes of a value. -/
def tree : Param → FormTree.Tree
  | .null => .absent
  | .bool b => .leaf (boolText b)
  | .number n => .leaf (Nat.toDigits 10 n)
  | .text content => .leaf content
  | .array items => .array (treeOfItems items)
  | .object fields => .object (treeOfFields fields)

def treeOfItems : List Param → List FormTree.Tree
  | [] => []
  | item :: rest => item.tree :: treeOfItems rest

def treeOfFields : List (List Char × Param) → List (List Char × FormTree.Tree)
  | [] => []
  | (name, value) :: rest => (name, value.tree) :: treeOfFields rest

end

mutual

/-- The value as `JSON.stringify` takes it. -/
def json : Param → Json.Value ℕ
  | .null => .null
  | .bool b => .bool b
  | .number n => .number n
  | .text content => .string (Json.units content)
  | .array items => .array (jsonOfItems items)
  | .object fields => .object (jsonOfFields fields)

def jsonOfItems : List Param → List (Json.Value ℕ)
  | [] => []
  | item :: rest => item.json :: jsonOfItems rest

def jsonOfFields : List (List Char × Param) → List (Json.Units × Json.Value ℕ)
  | [] => []
  | (name, value) :: rest => (Json.units name, value.json) :: jsonOfFields rest

end

/-- Strings are compared by their code units. -/
def keyOrder (name : List Char) : List ℕ := (Json.units name).map UInt16.toNat

/-- `Object.entries(value).sort(([a], [b]) => …)`. -/
def sortFields (fields : List (List Char × Param)) : List (List Char × Param) :=
  fields.insertionSort fun f g => keyOrder f.1 ≤ keyOrder g.1

/-- The index that a name is, if it is written as one of an array. -/
def arrayIndex? (name : List Char) : Option ℕ :=
  let index := Numeral.value 10 name
  if name = Nat.toDigits 10 index ∧ index < 4294967295 then some index else none

/-- `Object.fromEntries`: the names that are array indices come first, by their values, and
the others stay in order. -/
def fromEntries (entries : List (List Char × Param)) : List (List Char × Param) :=
  (entries.filter fun f => (arrayIndex? f.1).isSome).insertionSort
      (fun f g => (arrayIndex? f.1).getD 0 ≤ (arrayIndex? g.1).getD 0) ++
    entries.filter fun f => !(arrayIndex? f.1).isSome

mutual

/-- `stable`: the value with its keys in a fixed order, which the values under them do not
affect. -/
def stable : Param → Param
  | .array items => .array (stableItems items)
  | .object fields => .object (fromEntries (sortFields (stableFields fields)))
  | .null => .null
  | .bool b => .bool b
  | .number n => .number n
  | .text content => .text content

def stableItems : List Param → List Param
  | [] => []
  | item :: rest => item.stable :: stableItems rest

def stableFields : List (List Char × Param) → List (List Char × Param)
  | [] => []
  | (name, value) :: rest => (name, value.stable) :: stableFields rest

end

end Param

/-- `encodeForm`. -/
def encodeForm (params : List (List Char × Param)) : List Char :=
  FormTree.print (Param.treeOfFields params)

/-- `CHECKOUT_WINDOW_MS`. -/
def checkoutWindowMs : ℕ := 60000

/-- The text whose digest is the key of a payment page. -/
def checkoutText (params : List (List Char × Param)) (now : ℕ) : List Char :=
  Json.print Json.decimal
    (Param.array [.number (now / checkoutWindowMs), Param.stable (.object params)]).json

/-- `createHash('sha256').update(…).digest('hex').slice(0, 48)`. -/
def shortDigest (sha256Hex : List Char → List Char) (text : List Char) : List Char :=
  (sha256Hex text).take 48

/-- `checkoutIdempotencyKey`. -/
def checkoutIdempotencyKey (sha256Hex : List Char → List Char)
    (params : List (List Char × Param)) (now : ℕ) : List Char :=
  "silencewatch-checkout-".toList ++ shortDigest sha256Hex (checkoutText params now)

/-- The languages of a payment page. -/
inductive Lang where
  | fr
  | en
  deriving DecidableEq

def Lang.text : Lang → List Char
  | .fr => "fr".toList
  | .en => "en".toList

/-- What is asked of `createCheckoutSession`. -/
structure CheckoutInput where
  customerId : List Char
  priceId : List Char
  userId : List Char
  successUrl : List Char
  cancelUrl : List Char
  automaticTax : Bool
  /-- The language of Stripe's page; its own choice when absent. -/
  locale : Option Lang
  /-- Markdown shown next to a box the buyer must tick before paying. -/
  acceptance : Option (List Char)
  deriving DecidableEq

/-- `line_items`. -/
def lineItems (priceId : List Char) : Param :=
  .array [.object [("price".toList, .text priceId), ("quantity".toList, .number 1)]]

/-- `custom_text`. -/
def customText (message : List Char) : Param :=
  .object [("terms_of_service_acceptance".toList, .object [("message".toList, .text message)])]

/-- The parameters that are sent with the buyer's acceptance, if it is asked for. -/
def acceptanceParams : Option (List Char) → List (List Char × Param)
  | none => []
  | some message =>
    [("consent_collection".toList,
        .object [("terms_of_service".toList, .text "required".toList)]),
      ("custom_text".toList, customText message)]

/-- The parameters that are sent when the tax is computed by Stripe. -/
def taxParams (automaticTax : Bool) : List (List Char × Param) :=
  if automaticTax then
    [("automatic_tax".toList, .object [("enabled".toList, .bool true)]),
      ("customer_update".toList, .object [("address".toList, .text "auto".toList)])]
  else []

/-- `input.locale ?? 'auto'`. -/
def localeText (locale : Option Lang) : List Char := (locale.map Lang.text).getD "auto".toList

/-- `params` of `createCheckoutSession`. -/
def CheckoutInput.params (input : CheckoutInput) : List (List Char × Param) :=
  [("mode".toList, .text "subscription".toList),
    ("customer".toList, .text input.customerId),
    ("client_reference_id".toList, .text input.userId),
    ("line_items".toList, lineItems input.priceId),
    ("success_url".toList, .text input.successUrl),
    ("cancel_url".toList, .text input.cancelUrl),
    ("billing_address_collection".toList, .text "auto".toList),
    ("locale".toList, .text (localeText input.locale)),
    ("subscription_data".toList,
      .object [("metadata".toList, .object [("user_id".toList, .text input.userId)])])] ++
    acceptanceParams input.acceptance ++ taxParams input.automaticTax

namespace Param

/-- No two fields of an object have one name. -/
inductive WellKeyed : Param → Prop
  | null : WellKeyed .null
  | bool (b : Bool) : WellKeyed (.bool b)
  | number (n : ℕ) : WellKeyed (.number n)
  | text (content : List Char) : WellKeyed (.text content)
  | array {items : List Param} (hitems : ∀ item ∈ items, WellKeyed item) : WellKeyed (.array items)
  | object {fields : List (List Char × Param)} (hdistinct : (fields.map Prod.fst).Nodup)
    (hfields : ∀ field ∈ fields, WellKeyed field.2) : WellKeyed (.object fields)

/-- The same but for the order of the fields of objects, at any depth. -/
inductive Reordered : Param → Param → Prop
  | refl (p : Param) : Reordered p p
  | trans {p q r : Param} (hpq : Reordered p q) (hqr : Reordered q r) : Reordered p r
  | perm {fields fields' : List (List Char × Param)} (h : fields.Perm fields') :
    Reordered (.object fields) (.object fields')
  | item {p q : Param} (before after : List Param) (h : Reordered p q) :
    Reordered (.array (before ++ p :: after)) (.array (before ++ q :: after))
  | field {p q : Param} (name : List Char) (before after : List (List Char × Param))
    (h : Reordered p q) :
    Reordered (.object (before ++ (name, p) :: after)) (.object (before ++ (name, q) :: after))

section Stable

variable {p q : Param} {fields fields' : List (List Char × Param)}

theorem keyOrder_injective : Function.Injective keyOrder := by
  intro name name' h
  exact Json.units_injective ((List.map_inj_right fun _ _ => UInt16.toNat_inj.mp).mp h)

theorem stableItems_eq (items : List Param) : stableItems items = items.map stable := by
  induction items with
  | nil => rfl
  | cons item rest ih => rw [stableItems, ih, List.map_cons]

theorem stableFields_eq (fields : List (List Char × Param)) :
    stableFields fields = fields.map fun field => (field.1, field.2.stable) := by
  induction fields with
  | nil => rfl
  | cons field rest ih =>
    obtain ⟨name, value⟩ := field
    rw [stableFields, ih, List.map_cons]

theorem map_fst_stableFields (fields : List (List Char × Param)) :
    (stableFields fields).map Prod.fst = fields.map Prod.fst := by
  rw [stableFields_eq, List.map_map]
  rfl

theorem perm_sortFields (fields : List (List Char × Param)) : (sortFields fields).Perm fields :=
  List.perm_insertionSort _ _

theorem perm_fromEntries (entries : List (List Char × Param)) :
    (fromEntries entries).Perm entries :=
  ((List.perm_insertionSort _ _).append_right _).trans (List.filter_append_perm _ _)

/-- A name that has other characters than digits is no array index. -/
theorem arrayIndex?_eq_none {name : List Char} (h : name.all Char.isDigit = false) :
    arrayIndex? name = none := by
  unfold arrayIndex?
  refine if_neg fun hindex => ?_
  rw [hindex.1] at h
  have hdigits : (Nat.toDigits 10 (Numeral.value 10 name)).all Char.isDigit = true :=
    List.all_eq_true.mpr fun c hc => Nat.isDigit_of_mem_toDigits (by decide) (by decide) hc
  exact Bool.false_ne_true (h.symm.trans hdigits)

/-- Where no name is an array index, the entries stay in order. -/
theorem fromEntries_sortFields (h : ∀ f ∈ fields, f.1.all Char.isDigit = false) :
    fromEntries (sortFields fields) = sortFields fields := by
  have hnone : ∀ f ∈ sortFields fields, (arrayIndex? f.1).isSome = false := fun f hf => by
    rw [arrayIndex?_eq_none (h f ((perm_sortFields fields).mem_iff.mp hf)), Option.isSome_none]
  unfold fromEntries
  rw [List.filter_eq_nil_iff.mpr fun f hf => by simp [hnone f hf],
    List.filter_eq_self.mpr fun f hf => by simp [hnone f hf], List.insertionSort_nil,
    List.nil_append]

/-- The order of the fields is the only thing that is changed. -/
theorem perm_stableOrder (fields : List (List Char × Param)) :
    (fromEntries (sortFields fields)).Perm fields :=
  (perm_fromEntries _).trans (perm_sortFields _)

/-- Fields of distinct names have one order. -/
theorem sortFields_eq_of_perm (hdistinct : (fields.map Prod.fst).Nodup)
    (hperm : fields.Perm fields') : sortFields fields = sortFields fields' := by
  have hboth : (sortFields fields).Perm (sortFields fields') :=
    (perm_sortFields fields).trans (hperm.trans (perm_sortFields fields').symm)
  have hnames : ((sortFields fields).map Prod.fst).Nodup :=
    ((perm_sortFields fields).map Prod.fst).nodup_iff.mpr hdistinct
  have hsame : ∀ f ∈ sortFields fields, ∀ g ∈ sortFields fields,
      keyOrder f.1 ≤ keyOrder g.1 → keyOrder g.1 ≤ keyOrder f.1 → f = g := by
    intro f hf g hg hle hge
    exact List.inj_on_of_nodup_map hnames hf hg (keyOrder_injective (le_antisymm hle hge))
  have hsorted : ∀ fields : List (List Char × Param),
      (sortFields fields).Pairwise fun f g => keyOrder f.1 ≤ keyOrder g.1 := fun fields =>
    List.pairwise_insertionSort _ _
  refine hboth.eq_of_pairwise (fun f g hf hg => ?_) (hsorted fields) (hsorted fields')
  exact hsame f hf g (hboth.mem_iff.mpr hg)

theorem Reordered.symm (h : Reordered p q) : Reordered q p := by
  induction h with
  | refl p => exact .refl p
  | trans _ _ ih ih' => exact ih'.trans ih
  | perm h => exact .perm h.symm
  | item before after _ ih => exact .item before after ih
  | field name before after _ ih => exact .field name before after ih

/-- What has distinct names keeps them in another order. -/
theorem Reordered.wellKeyed (h : Reordered p q) (hp : WellKeyed p) : WellKeyed q := by
  induction h with
  | refl p => exact hp
  | trans _ _ ih ih' => exact ih' (ih hp)
  | perm h =>
    cases hp with
    | object hdistinct hfields =>
      exact .object ((h.map Prod.fst).nodup_iff.mp hdistinct) fun field hf =>
        hfields field (h.mem_iff.mpr hf)
  | @item p q before after _ ih =>
    cases hp with
    | array hitems =>
      refine .array fun item hmem => ?_
      rcases List.mem_append.mp hmem with hmem | hmem
      · exact hitems item (List.mem_append_left _ hmem)
      · rcases List.mem_cons.mp hmem with rfl | hmem
        · exact ih (hitems p (by simp))
        · exact hitems item (by simp [hmem])
  | @field p q name before after _ ih =>
    cases hp with
    | object hdistinct hfields =>
      refine .object (by simpa using hdistinct) fun field hmem => ?_
      rcases List.mem_append.mp hmem with hmem | hmem
      · exact hfields field (List.mem_append_left _ hmem)
      · rcases List.mem_cons.mp hmem with rfl | hmem
        · exact ih (hfields (name, p) (by simp))
        · exact hfields field (by simp [hmem])

/-- The order of fields does not show in the stable value. -/
theorem Reordered.stable_eq (h : Reordered p q) (hp : WellKeyed p) : p.stable = q.stable := by
  induction h with
  | refl p => rfl
  | trans hpq _ ih ih' => exact (ih hp).trans (ih' (hpq.wellKeyed hp))
  | @perm fields fields' h =>
    cases hp with
    | object hdistinct _ =>
      have hperm : (stableFields fields).Perm (stableFields fields') := by
        rw [stableFields_eq, stableFields_eq]
        exact h.map _
      rw [stable, stable, sortFields_eq_of_perm (by rwa [map_fst_stableFields]) hperm]
  | @item p q before after _ ih =>
    cases hp with
    | array hitems =>
      simp only [stable, stableItems_eq, List.map_append, List.map_cons,
        ih (hitems p (by simp))]
  | @field p q name before after _ ih =>
    cases hp with
    | object _ hfields =>
      simp only [stable, stableFields_eq, List.map_append, List.map_cons,
        ih (hfields (name, p) (by simp))]

mutual

/-- The stable value differs by the order of fields only. -/
theorem reordered_stable : (p : Param) → Reordered p p.stable
  | .null => .refl _
  | .bool _ => .refl _
  | .number _ => .refl _
  | .text _ => .refl _
  | .array items => reordered_stableItems [] items
  | .object fields =>
    .trans (reordered_stableFields [] fields) (.perm (perm_stableOrder _).symm)

theorem reordered_stableItems (before : List Param) : (items : List Param) →
    Reordered (.array (before ++ items)) (.array (before ++ stableItems items))
  | [] => .refl _
  | item :: rest => by
    have hfirst := Reordered.item before rest (reordered_stable item)
    have hrest := reordered_stableItems (before ++ [item.stable]) rest
    rw [List.append_assoc, List.append_assoc] at hrest
    exact hfirst.trans hrest

theorem reordered_stableFields (before : List (List Char × Param)) :
    (fields : List (List Char × Param)) →
    Reordered (.object (before ++ fields)) (.object (before ++ stableFields fields))
  | [] => .refl _
  | (name, value) :: rest => by
    have hfirst := Reordered.field name before rest (reordered_stable value)
    have hrest := reordered_stableFields (before ++ [(name, value.stable)]) rest
    rw [List.append_assoc, List.append_assoc] at hrest
    exact hfirst.trans hrest

end

/-- **Stable values.** The stable values are equal exactly for the same value in any order. -/
theorem stable_eq_iff (hp : WellKeyed p) : p.stable = q.stable ↔ Reordered p q := by
  constructor
  · intro h
    have hq := (reordered_stable q).symm
    rw [← h] at hq
    exact (reordered_stable p).trans hq
  · intro h
    exact h.stable_eq hp

end Stable

section Texts

mutual

/-- `JSON.stringify` is given a value of its own for each value. -/
theorem json_injective : (p q : Param) → p.json = q.json → p = q
  | .array items, q => fun h => by
    cases q <;> simp only [json, reduceCtorEq, Json.Value.array.injEq] at h
    rw [jsonOfItems_injective items _ h]
  | .object fields, q => fun h => by
    cases q <;> simp only [json, reduceCtorEq, Json.Value.object.injEq] at h
    rw [jsonOfFields_injective fields _ h]
  | .null, q => fun h => by
    cases q <;> simp only [json, reduceCtorEq] at h ⊢
  | .bool _, q => fun h => by
    cases q <;> simp only [json, reduceCtorEq, Json.Value.bool.injEq] at h
    rw [h]
  | .number _, q => fun h => by
    cases q <;> simp only [json, reduceCtorEq, Json.Value.number.injEq] at h
    rw [h]
  | .text _, q => fun h => by
    cases q <;> simp only [json, reduceCtorEq, Json.Value.string.injEq] at h
    rw [Json.units_injective h]

theorem jsonOfItems_injective : (items items' : List Param) →
    jsonOfItems items = jsonOfItems items' → items = items'
  | [], items' => fun h => by
    cases items' with
    | nil => rfl
    | cons item' rest' => simp only [jsonOfItems, reduceCtorEq] at h
  | item :: rest, items' => fun h => by
    cases items' with
    | nil => simp only [jsonOfItems, reduceCtorEq] at h
    | cons item' rest' =>
      simp only [jsonOfItems, List.cons.injEq] at h
      rw [json_injective item item' h.1, jsonOfItems_injective rest rest' h.2]

theorem jsonOfFields_injective : (fields fields' : List (List Char × Param)) →
    jsonOfFields fields = jsonOfFields fields' → fields = fields'
  | [], fields' => fun h => by
    cases fields' with
    | nil => rfl
    | cons field' rest' => simp only [jsonOfFields, reduceCtorEq] at h
  | (name, value) :: rest, fields' => fun h => by
    cases fields' with
    | nil => simp only [jsonOfFields, reduceCtorEq] at h
    | cons field' rest' =>
      obtain ⟨name', value'⟩ := field'
      simp only [jsonOfFields, List.cons.injEq, Prod.mk.injEq] at h
      rw [Json.units_injective h.1.1, json_injective value value' h.1.2,
        jsonOfFields_injective rest rest' h.2]

end

end Texts

end Param

/-- The text of a key says the minute and the parameters, but for their order. -/
theorem checkoutText_eq_iff {params params' : List (List Char × Param)} {now now' : ℕ}
    (hparams : Param.WellKeyed (.object params)) :
    checkoutText params now = checkoutText params' now' ↔
      now / checkoutWindowMs = now' / checkoutWindowMs ∧
        Param.Reordered (.object params) (.object params') := by
  rw [← Param.stable_eq_iff hparams]
  constructor
  · intro h
    have hread := congrArg (Json.read Json.decimal) h
    unfold checkoutText at hread
    rw [Json.read_print, Json.read_print, Option.some.injEq] at hread
    have hlist := Param.json_injective _ _ hread
    simpa only [Param.array.injEq, List.cons.injEq, Param.number.injEq, and_true] using hlist
  · rintro ⟨hminute, hstable⟩
    rw [checkoutText, checkoutText, hminute, hstable]

namespace CheckoutInput

/-- The names of the parameters, by what is asked for beyond the payment itself. -/
def names (acceptance automaticTax : Bool) : List (List Char) :=
  ["mode".toList, "customer".toList, "client_reference_id".toList, "line_items".toList,
    "success_url".toList, "cancel_url".toList, "billing_address_collection".toList,
    "locale".toList, "subscription_data".toList] ++
    (if acceptance then ["consent_collection".toList, "custom_text".toList] else []) ++
    (if automaticTax then ["automatic_tax".toList, "customer_update".toList] else [])

variable {input input' : CheckoutInput}

theorem map_fst_params (input : CheckoutInput) :
    input.params.map Prod.fst = names input.acceptance.isSome input.automaticTax := by
  obtain ⟨_, _, _, _, _, tax, _, acceptance⟩ := input
  cases acceptance <;> cases tax <;> rfl

theorem names_spec : ∀ acceptance automaticTax : Bool, (names acceptance automaticTax).Nodup ∧
    (∀ name ∈ names acceptance automaticTax, FormTree.Named name) ∧
    ("custom_text".toList ∈ names acceptance automaticTax ↔ acceptance = true) ∧
    ("automatic_tax".toList ∈ names acceptance automaticTax ↔ automaticTax = true) := by
  decide

theorem localeText_injective : Function.Injective localeText := by
  have hall : ∀ a ∈ [none, some Lang.fr, some Lang.en], ∀ b ∈ [none, some Lang.fr, some Lang.en],
      localeText a = localeText b → a = b := by decide
  have hmem : ∀ a : Option Lang, a ∈ [none, some Lang.fr, some Lang.en] := by
    rintro (_ | _ | _) <;> decide
  exact fun a b => hall a (hmem a) b (hmem b)

/-- What is asked is found again in what becomes of its parameters, in any order, by whatever
keeps texts apart. -/
theorem eq_of_perm {X : Type} (f : Param → X) (htext : ∀ a b, f (.text a) = f (.text b) → a = b)
    (hprice : ∀ a b, f (lineItems a) = f (lineItems b) → a = b)
    (hmessage : ∀ a b, f (customText a) = f (customText b) → a = b)
    (h : (input.params.map fun p => (p.1, f p.2)).Perm
      (input'.params.map fun p => (p.1, f p.2))) : input = input' := by
  have hnames : (names input.acceptance.isSome input.automaticTax).Perm
      (names input'.acceptance.isSome input'.automaticTax) := by
    have hfst := h.map Prod.fst
    simp only [List.map_map, Function.comp_def] at hfst
    rwa [← map_fst_params, ← map_fst_params]
  -- What stands under a name in both is the same.
  have hvalue : ∀ name v v', (name, v) ∈ input.params → (name, v') ∈ input'.params →
      f v = f v' := by
    intro name v v' hv hv'
    have hmem := h.mem_iff.mp (List.mem_map_of_mem hv)
    have hmem' := List.mem_map_of_mem (f := fun p => (p.1, f p.2)) hv'
    have hnodup : ((input'.params.map fun p => (p.1, f p.2)).map Prod.fst).Nodup := by
      rw [List.map_map]
      exact (map_fst_params input').symm ▸ (names_spec _ _).1
    exact congrArg Prod.snd (List.inj_on_of_nodup_map hnodup hmem hmem' rfl)
  have hcustomer := hvalue "customer".toList (.text input.customerId) (.text input'.customerId)
    (by simp [params]) (by simp [params])
  have huser := hvalue "client_reference_id".toList (.text input.userId) (.text input'.userId)
    (by simp [params]) (by simp [params])
  have hprice' := hvalue "line_items".toList (lineItems input.priceId) (lineItems input'.priceId)
    (by simp [params]) (by simp [params])
  have hsuccess := hvalue "success_url".toList (.text input.successUrl) (.text input'.successUrl)
    (by simp [params]) (by simp [params])
  have hcancel := hvalue "cancel_url".toList (.text input.cancelUrl) (.text input'.cancelUrl)
    (by simp [params]) (by simp [params])
  have hlocale := hvalue "locale".toList (.text (localeText input.locale))
    (.text (localeText input'.locale)) (by simp [params]) (by simp [params])
  have htax : input.automaticTax = input'.automaticTax := by
    have hiff := hnames.mem_iff (a := "automatic_tax".toList)
    rw [(names_spec _ _).2.2.2, (names_spec _ _).2.2.2] at hiff
    exact Bool.eq_iff_iff.mpr hiff
  have hsome : input.acceptance.isSome = input'.acceptance.isSome := by
    have hiff := hnames.mem_iff (a := "custom_text".toList)
    rw [(names_spec _ _).2.2.1, (names_spec _ _).2.2.1] at hiff
    exact Bool.eq_iff_iff.mpr hiff
  have hacceptance : input.acceptance = input'.acceptance := by
    cases ha : input.acceptance with
    | none =>
      rw [ha, Option.isSome_none] at hsome
      exact (Option.not_isSome_iff_eq_none.mp (by simp [← hsome])).symm
    | some message =>
      rw [ha, Option.isSome_some] at hsome
      obtain ⟨message', ha'⟩ := Option.isSome_iff_exists.mp hsome.symm
      have hmessage' := hvalue "custom_text".toList (customText message) (customText message')
        (by simp [params, ha, acceptanceParams]) (by simp [params, ha', acceptanceParams])
      rw [ha', hmessage _ _ hmessage']
  cases input
  cases input'
  simp only [CheckoutInput.mk.injEq]
  exact ⟨htext _ _ hcustomer, hprice _ _ hprice', htext _ _ huser, htext _ _ hsuccess,
    htext _ _ hcancel, htax, localeText_injective (htext _ _ hlocale), hacceptance⟩

/-- The values of the parameters have what texts, truth values, lists of one priced item and
objects of one field have. -/
theorem of_mem_params {P : Param → Prop} (htext : ∀ content, P (.text content))
    (hitems : ∀ priceId, P (lineItems priceId))
    (hbool : ∀ b, P (.bool b))
    (hsingle : ∀ name value, FormTree.Named name → P value → P (.object [(name, value)]))
    {field : List Char × Param} (hfield : field ∈ input.params) : P field.2 := by
  rcases List.mem_append.mp hfield with hfield | htax
  · rcases List.mem_append.mp hfield with hfield | hacceptance
    · simp only [List.mem_cons, List.not_mem_nil, or_false] at hfield
      rcases hfield with rfl | rfl | rfl | rfl | rfl | rfl | rfl | rfl | rfl
      · exact htext _
      · exact htext _
      · exact htext _
      · exact hitems _
      · exact htext _
      · exact htext _
      · exact htext _
      · exact htext _
      · exact hsingle _ _ (by decide) (hsingle _ _ (by decide) (htext _))
    · cases hmessage : input.acceptance with
      | none => simp [hmessage, acceptanceParams] at hacceptance
      | some message =>
        simp only [hmessage, acceptanceParams, List.mem_cons, List.not_mem_nil,
          or_false] at hacceptance
        rcases hacceptance with rfl | rfl
        · exact hsingle _ _ (by decide) (htext _)
        · exact hsingle _ _ (by decide) (hsingle _ _ (by decide) (htext _))
  · unfold taxParams at htax
    split at htax
    · simp only [List.mem_cons, List.not_mem_nil, or_false] at htax
      rcases htax with rfl | rfl
      · exact hsingle _ _ (by decide) (hbool _)
      · exact hsingle _ _ (by decide) (htext _)
    · exact absurd htax List.not_mem_nil

/-- No two parameters have one name, at any depth. -/
theorem wellKeyed_params (input : CheckoutInput) : Param.WellKeyed (.object input.params) := by
  refine .object (map_fst_params input ▸ (names_spec _ _).1) fun field hfield => ?_
  refine of_mem_params (P := Param.WellKeyed) .text (fun priceId => ?_) .bool
    (fun name value _ hvalue => ?_) hfield
  swap
  · refine .object (List.nodup_singleton _) ?_
    simpa only [List.mem_singleton, forall_eq] using hvalue
  refine .array fun item hitem => ?_
  rw [List.mem_singleton] at hitem
  rw [hitem]
  refine .object (show ["price".toList, "quantity".toList].Nodup by decide) fun field hmem => ?_
  rcases List.mem_cons.mp hmem with rfl | hmem
  · exact .text _
  · rw [List.mem_singleton.mp hmem]
    exact .number 1

theorem treeOfFields_eq (fields : List (List Char × Param)) :
    Param.treeOfFields fields = fields.map fun field => (field.1, field.2.tree) := by
  induction fields with
  | nil => rfl
  | cons field rest ih =>
    obtain ⟨name, value⟩ := field
    rw [Param.treeOfFields, ih, List.map_cons]

/-- Nothing that is asked is lost in the form. -/
theorem full_params (input : CheckoutInput) :
    FormTree.Full (.object (Param.treeOfFields input.params)) := by
  have hnames : (Param.treeOfFields input.params).map Prod.fst =
      names input.acceptance.isSome input.automaticTax := by
    rw [treeOfFields_eq, List.map_map]
    exact map_fst_params input
  refine .object ?_ (hnames ▸ (names_spec _ _).1) (fun field hfield => ?_) fun field hfield => ?_
  · intro hnil
    rw [hnil] at hnames
    exact absurd hnames (List.cons_ne_nil _ _).symm
  · have hmem := List.mem_map_of_mem (f := Prod.fst) hfield
    rw [hnames] at hmem
    exact (names_spec _ _).2.1 _ hmem
  · rw [treeOfFields_eq] at hfield
    obtain ⟨param, hparam, rfl⟩ := List.mem_map.mp hfield
    refine of_mem_params (P := fun value => FormTree.Full value.tree) .leaf (fun priceId => ?_)
      (fun b => .leaf _) (fun name value hname hvalue => ?_) hparam
    · refine .array (List.cons_ne_nil _ _) fun item hitem => ?_
      rw [Param.treeOfItems, Param.treeOfItems, List.mem_singleton] at hitem
      rw [hitem]
      refine .object (List.cons_ne_nil _ _)
        (show ["price".toList, "quantity".toList].Nodup by decide) (fun field hmem => ?_)
        fun field hmem => ?_
      all_goals
        rcases List.mem_cons.mp hmem with rfl | hmem
      · exact (by decide : FormTree.Named "price".toList)
      · rw [List.mem_singleton.mp hmem]
        exact (by decide : FormTree.Named "quantity".toList)
      · exact .leaf _
      · rw [List.mem_singleton.mp hmem]
        exact .leaf _
    · refine .object (List.cons_ne_nil _ _) (List.nodup_singleton _) (fun field hmem => ?_)
        fun field hmem => ?_
      · rw [List.mem_singleton.mp hmem]
        exact hname
      · rw [List.mem_singleton.mp hmem]
        exact hvalue

/-- **Forms.** Two payment pages are asked for by the same form exactly when the same is asked. -/
theorem encodeForm_params_injective :
    Function.Injective fun input : CheckoutInput => encodeForm input.params := by
  intro input input' h
  have htrees := FormTree.print_injective (full_params input) (full_params input') h
  rw [treeOfFields_eq, treeOfFields_eq] at htrees
  refine eq_of_perm Param.tree (fun a b heq => ?_) (fun a b heq => ?_) (fun a b heq => ?_)
    (htrees ▸ .rfl)
  · exact FormTree.Tree.leaf.inj heq
  · simpa [lineItems, Param.tree, Param.treeOfItems, Param.treeOfFields] using heq
  · simpa [customText, Param.tree, Param.treeOfFields] using heq

/-- The parameters of two payment pages differ by their order only when the same is asked. -/
theorem reordered_params_iff :
    Param.Reordered (.object input.params) (.object input'.params) ↔ input = input' := by
  constructor
  · intro h
    have hstable := h.stable_eq (wellKeyed_params input)
    simp only [Param.stable, Param.object.injEq] at hstable
    have hperm : (Param.stableFields input.params).Perm (Param.stableFields input'.params) :=
      (Param.perm_stableOrder _).symm.trans (hstable ▸ Param.perm_stableOrder _)
    rw [Param.stableFields_eq, Param.stableFields_eq] at hperm
    refine eq_of_perm Param.stable (fun a b heq => ?_) (fun a b heq => ?_) (fun a b heq => ?_) hperm
    · exact Param.text.inj heq
    · have hsorted : ∀ c, (lineItems c).stable = lineItems c := fun c => by
        simp only [lineItems, Param.stable, Param.stableItems, Param.stableFields]
        rw [Param.fromEntries_sortFields]
        · rfl
        · simp only [List.forall_mem_cons]
          decide
      rw [hsorted, hsorted] at heq
      simpa [lineItems] using heq
    · have hsorted : ∀ c, (customText c).stable = customText c := fun _ => by
        simp only [customText, Param.stable, Param.stableFields]
        rw [Param.fromEntries_sortFields, Param.fromEntries_sortFields]
        · rfl
        · simp only [List.forall_mem_singleton]
          decide
        · simp only [List.forall_mem_singleton]
          decide
      rw [hsorted, hsorted] at heq
      simpa [customText] using heq
  · rintro rfl
    exact .refl _

end CheckoutInput

/-- The key of a payment page says what is asked and in which minute, where the digest tells the
two texts apart. -/
theorem checkoutIdempotencyKey_eq_iff {sha256Hex : List Char → List Char}
    {input input' : CheckoutInput} {now now' : ℕ}
    (hcollision : shortDigest sha256Hex (checkoutText input.params now) =
      shortDigest sha256Hex (checkoutText input'.params now') →
        checkoutText input.params now = checkoutText input'.params now') :
    checkoutIdempotencyKey sha256Hex input.params now =
      checkoutIdempotencyKey sha256Hex input'.params now' ↔
      now / checkoutWindowMs = now' / checkoutWindowMs ∧ input = input' := by
  rw [← CheckoutInput.reordered_params_iff, ← checkoutText_eq_iff input.wellKeyed_params]
  unfold checkoutIdempotencyKey
  rw [List.append_cancel_left_eq]
  exact ⟨hcollision, fun h => by rw [h]⟩

/-- `TIMEOUT_MS`. -/
def timeoutMs : ℕ := 15000

/-- Stripe keeps keys for 24 hours. -/
def keysKeptMs : ℕ := 86400000

/-- A payment page that is asked for, when it is asked for and when the request reaches Stripe,
and what Stripe answers. -/
structure CheckoutCall where
  input : CheckoutInput
  asked : ℕ
  arrives : ℕ
  answer : Idempotency.Answer

/-- What `createCheckoutSession` sends, with the answer. -/
def CheckoutCall.exchange (sha256Hex : List Char → List Char) (call : CheckoutCall) :
    Idempotency.Exchange (List Char) (List Char) where
  key := checkoutIdempotencyKey sha256Hex call.input.params call.asked
  body := encodeForm call.input.params
  time := call.arrives
  answer := call.answer

/-- The same is asked in one minute. -/
def CheckoutCall.Same (call call' : CheckoutCall) : Prop :=
  call.asked / checkoutWindowMs = call'.asked / checkoutWindowMs ∧ call.input = call'.input

/-- Of the calls in the order in which they arrive at a service that does what Stripe documents,
none is refused for a key that came with other parameters, one is in conflict only where the
same was asked in that minute, and two are given one payment page exactly when they ask the
same in one minute. -/
theorem one_page_per_request (sha256Hex : List Char → List Char) (calls : List CheckoutCall)
    (hstripe : Idempotency.DocumentedRun keysKeptMs
      (calls.map (CheckoutCall.exchange sha256Hex)))
    (hcollision : ∀ call ∈ calls, ∀ call' ∈ calls,
      shortDigest sha256Hex (checkoutText call.input.params call.asked) =
        shortDigest sha256Hex (checkoutText call'.input.params call'.asked) →
      checkoutText call.input.params call.asked = checkoutText call'.input.params call'.asked)
    (hintime : ∀ call ∈ calls, call.asked ≤ call.arrives ∧ call.arrives ≤ call.asked + timeoutMs) :
    ∀ earlier call later, calls = earlier ++ call :: later →
      call.answer ≠ .refused ∧
      (call.answer = .inProgress → ∃ call' ∈ earlier, call'.Same call) ∧
      ∀ call' ∈ earlier, ∀ n m, call'.answer = .given n → call.answer = .given m →
        (n = m ↔ call'.Same call) := by
  rintro earlier call later rfl
  have hkey : ∀ c ∈ earlier ++ call :: later, ∀ c' ∈ earlier ++ call :: later,
      (c.exchange sha256Hex).key = (c'.exchange sha256Hex).key ↔ c.Same c' := fun c hc c' hc' =>
    checkoutIdempotencyKey_eq_iff (hcollision c hc c' hc')
  -- A key that comes again comes within its minute, or as long after it as a request may take.
  have hrepeats : ∀ c ∈ earlier ++ call :: later, ∀ c' ∈ earlier ++ call :: later,
      Idempotency.Repeats keysKeptMs (c.exchange sha256Hex) (c'.exchange sha256Hex) := by
    intro c hc c' hc' heq
    obtain ⟨hminute, hinput⟩ := (hkey c hc c' hc').mp heq
    obtain ⟨hasked, _⟩ := hintime c hc
    obtain ⟨_, harrives⟩ := hintime c' hc'
    refine ⟨congrArg (fun input : CheckoutInput => encodeForm input.params) hinput, ?_⟩
    change c'.arrives < c.arrives + keysKeptMs
    unfold timeoutMs at harrives
    unfold checkoutWindowMs at hminute
    unfold keysKeptMs
    omega
  rw [List.map_append, List.map_cons] at hstripe
  have hanswered := Idempotency.answered_of_run hstripe (by
    rw [← List.map_cons, ← List.map_append, List.pairwise_map]
    exact List.pairwise_of_forall_mem_list hrepeats)
  have hcall : call ∈ earlier ++ call :: later := List.mem_append_right _ List.mem_cons_self
  have hearlier : ∀ c ∈ earlier, c ∈ earlier ++ call :: later := fun c hc =>
    List.mem_append_left _ hc
  refine ⟨hanswered.not_refused, fun hconflict => ?_, fun c hc n m hn hm => ?_⟩
  · obtain ⟨r, hr, hsame⟩ := hanswered.conflict hconflict
    obtain ⟨c, hc, rfl⟩ := List.mem_map.mp (List.mem_reverse.mp hr)
    exact ⟨c, hc, (hkey c (hearlier c hc) call hcall).mp hsame⟩
  · have hmem : c.exchange sha256Hex ∈ (earlier.map (CheckoutCall.exchange sha256Hex)).reverse :=
      List.mem_reverse.mpr (List.mem_map_of_mem hc)
    rw [hanswered.oneAnswer _ hmem n m hn hm]
    exact hkey c (hearlier c hc) call hcall

/-- A click on a plan. -/
def sampleCheckout (locale : Option Lang) : CheckoutInput where
  customerId := "cus_1".toList
  priceId := "price_pro".toList
  userId := "user-1".toList
  successUrl := "https://app.test/ok".toList
  cancelUrl := "https://app.test/no".toList
  automaticTax := true
  locale := locale
  acceptance := some "I accept.".toList

/-- Three clicks and one in another language, all in one minute, then a click in the next. -/
def sampleClicks : List CheckoutCall :=
  [⟨sampleCheckout none, 0, 0, .given 0⟩, ⟨sampleCheckout none, 300, 310, .inProgress⟩,
    ⟨sampleCheckout none, 500, 700, .given 0⟩, ⟨sampleCheckout (some .fr), 9000, 9000, .given 1⟩,
    ⟨sampleCheckout none, 60000, 60100, .given 2⟩]

/-- The texts of the clicks. -/
def clickText : Fin 3 → List Char
  | 0 => checkoutText (sampleCheckout none).params 0
  | 1 => checkoutText (sampleCheckout (some .fr)).params 9000
  | 2 => checkoutText (sampleCheckout none).params 60000

/-- A digest of its own for each text of the clicks. -/
def clickDigest (text : List Char) : List Char :=
  if text = clickText 0 then List.replicate 64 '0'
  else if text = clickText 1 then List.replicate 64 '1'
  else List.replicate 64 '2'

theorem shortDigest_clickText : ∀ k, shortDigest clickDigest (clickText k) =
    List.replicate 48 (Nat.digitChar k.val) := by
  have hminute : clickText 2 ≠ clickText 0 := by
    intro h
    have hsame := (checkoutText_eq_iff (CheckoutInput.wellKeyed_params _)).mp h
    exact absurd hsame.1 (by decide)
  have hlocale : ∀ now, checkoutText (sampleCheckout none).params now ≠ clickText 1 := by
    intro now h
    have hsame := (checkoutText_eq_iff (CheckoutInput.wellKeyed_params _)).mp h
    have hinput := CheckoutInput.reordered_params_iff.mp hsame.2
    exact absurd (congrArg CheckoutInput.locale hinput) (by decide)
  have hfrench : clickText 1 ≠ clickText 0 ∧ clickText 2 ≠ clickText 1 :=
    ⟨(hlocale 0).symm, hlocale 60000⟩
  intro k
  unfold shortDigest clickDigest
  match k with
  | 0 => rw [if_pos rfl, List.take_replicate]; rfl
  | 1 => rw [if_neg hfrench.1, if_pos rfl, List.take_replicate]; rfl
  | 2 => rw [if_neg hminute, if_neg hfrench.2, List.take_replicate]; rfl

/-- The key of any parameters says what is asked, but for the order of fields, and in which
minute, where the digest tells the two texts apart. -/
theorem idempotency_key_says_request {sha256Hex : List Char → List Char}
    {params params' : List (List Char × Param)} {now now' : ℕ}
    (hparams : Param.WellKeyed (.object params))
    (hcollision : shortDigest sha256Hex (checkoutText params now) =
      shortDigest sha256Hex (checkoutText params' now') →
        checkoutText params now = checkoutText params' now') :
    checkoutIdempotencyKey sha256Hex params now = checkoutIdempotencyKey sha256Hex params' now' ↔
      now / checkoutWindowMs = now' / checkoutWindowMs ∧
        Param.Reordered (.object params) (.object params') := by
  rw [← checkoutText_eq_iff hparams]
  unfold checkoutIdempotencyKey
  rw [List.append_cancel_left_eq]
  exact ⟨hcollision, fun h => by rw [h]⟩

/-- The same in another order, in the same minute. -/
theorem idempotency_key_says_request_clicks :
    checkoutIdempotencyKey clickDigest (sampleCheckout none).params 0 =
      checkoutIdempotencyKey clickDigest (sampleCheckout none).params.reverse 500 ↔
      0 / checkoutWindowMs = 500 / checkoutWindowMs ∧
        Param.Reordered (.object (sampleCheckout none).params)
          (.object (sampleCheckout none).params.reverse) :=
  idempotency_key_says_request (CheckoutInput.wellKeyed_params _) fun _ =>
    (checkoutText_eq_iff (CheckoutInput.wellKeyed_params _)).mpr
      ⟨by decide, .perm (List.reverse_perm _).symm⟩

/-- The keys of the clicks. -/
def clickKey (k : Fin 3) : List Char :=
  "silencewatch-checkout-".toList ++ List.replicate 48 (Nat.digitChar k.val)

/-- What Stripe is asked by the clicks, and what it answers. -/
theorem map_exchange_sampleClicks : sampleClicks.map (CheckoutCall.exchange clickDigest) =
    [⟨clickKey 0, encodeForm (sampleCheckout none).params, 0, .given 0⟩,
      ⟨clickKey 0, encodeForm (sampleCheckout none).params, 310, .inProgress⟩,
      ⟨clickKey 0, encodeForm (sampleCheckout none).params, 700, .given 0⟩,
      ⟨clickKey 1, encodeForm (sampleCheckout (some .fr)).params, 9000, .given 1⟩,
      ⟨clickKey 2, encodeForm (sampleCheckout none).params, 60100, .given 2⟩] := by
  have hkey : ∀ k, "silencewatch-checkout-".toList ++ shortDigest clickDigest (clickText k) =
      clickKey k := fun k => by rw [shortDigest_clickText]; rfl
  rw [← hkey, ← hkey, ← hkey]
  rfl

/-- The page of a key of the clicks. -/
def clickPage (key : List Char) : ℕ :=
  if key = clickKey 0 then 0 else if key = clickKey 1 then 1 else 2

theorem clickPage_clickKey : ∀ k, clickPage (clickKey k) = k := by decide

theorem documented_sampleClicks : Idempotency.DocumentedRun keysKeptMs
    (sampleClicks.map (CheckoutCall.exchange clickDigest)) := by
  rw [map_exchange_sampleClicks]
  refine ⟨?_, ?_, ?_, ?_, ?_, trivial⟩
  all_goals
    apply Idempotency.documented_of_page clickPage
    · simp [clickPage_clickKey]
    · simp [clickPage_clickKey]
    · decide
    · simp

/-- A triple click gets one page, another language and the next minute one of their own. -/
theorem one_page_per_request_clicks :
    (∃ call' ∈ sampleClicks.take 1, call'.Same sampleClicks[1]) ∧
      (∀ call' ∈ sampleClicks.take 2, ∀ n m, call'.answer = .given n →
        sampleClicks[2].answer = .given m → (n = m ↔ call'.Same sampleClicks[2])) ∧
      sampleClicks[4].answer ≠ .refused ∧
      ∀ call' ∈ sampleClicks.take 4, ∀ n m, call'.answer = .given n →
        sampleClicks[4].answer = .given m → (n = m ↔ call'.Same sampleClicks[4]) := by
  have hclass : ∀ call ∈ sampleClicks,
      ∃ k, checkoutText call.input.params call.asked = clickText k := by
    intro call hcall
    simp only [sampleClicks, List.mem_cons, List.not_mem_nil, or_false] at hcall
    rcases hcall with rfl | rfl | rfl | rfl | rfl
    · exact ⟨0, rfl⟩
    · exact ⟨0, rfl⟩
    · exact ⟨0, rfl⟩
    · exact ⟨1, rfl⟩
    · exact ⟨2, rfl⟩
  have hdigits : ∀ k k' : Fin 3, List.replicate 48 (Nat.digitChar k.val) =
      List.replicate 48 (Nat.digitChar k'.val) → k = k' := by decide
  have hlaw := one_page_per_request clickDigest sampleClicks documented_sampleClicks
    (fun call hcall call' hcall' h => by
      obtain ⟨k, hk⟩ := hclass call hcall
      obtain ⟨k', hk'⟩ := hclass call' hcall'
      rw [hk, hk', shortDigest_clickText, shortDigest_clickText] at h
      rw [hk, hk', hdigits k k' h])
    (by decide)
  have hconflict := (hlaw (sampleClicks.take 1) sampleClicks[1] (sampleClicks.drop 2) rfl).2.1
  have hthird := (hlaw (sampleClicks.take 2) sampleClicks[2] (sampleClicks.drop 3) rfl).2.2
  have hlast := hlaw (sampleClicks.take 4) sampleClicks[4] [] rfl
  exact ⟨hconflict rfl, hthird, hlast.1, hlast.2.2⟩

end SilenceWatch
