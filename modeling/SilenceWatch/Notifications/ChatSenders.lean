import SilenceWatch.Library.JsonSize
import SilenceWatch.Notifications.Templates

/-!
# Messages for Slack

Slack reads `<…>` as a control sequence, which may notify a whole channel, and `&` as the start
of an entity. What a message says of a check is escaped by three replacements, one after
another: no text of it holds an angle bracket, every `&` begins one of three entities, and
what was rendered can be told from what is sent.
-/

namespace SilenceWatch

/-- `accentHex`. -/
def accentHex (alert : Alert) : List Char :=
  if alert.kind = .down then "B3261E".toList else "146C2E".toList

/-- `String.prototype.replace` of every occurrence of a character. -/
def replaceAll (c : Char) (by' : List Char) (value : List Char) : List Char :=
  value.flatMap fun d => if d = c then by' else [d]

/-- `escapeSlack`. -/
def escapeSlack (value : List Char) : List Char :=
  replaceAll '>' "&gt;".toList (replaceAll '<' "&lt;".toList (replaceAll '&' "&amp;".toList value))

structure SlackField where
  title : List Char
  value : List Char
  short : Bool

structure SlackAttachment where
  color : List Char
  fallback : List Char
  title : List Char
  title_link : List Char
  fields : List SlackField
  footer : List Char
  ts : ℤ

structure SlackPayload where
  text : List Char
  attachments : List SlackAttachment

/-- `SlackSender.buildPayload`. -/
def SlackSender.buildPayload (alert : Alert) (rendered : RenderedAlert) (now : ℤ) :
    SlackPayload where
  text :=
    (if alert.kind = .down then ":red_circle:".toList else ":large_green_circle:".toList) ++
      ' ' :: escapeSlack rendered.headline
  attachments :=
    [{ color := '#' :: accentHex alert
       fallback := escapeSlack rendered.headline
       title := escapeSlack alert.check.name
       title_link := alert.url
       fields := rendered.fields.map fun field =>
         ⟨field.label, escapeSlack field.value, Json.utf16.of field.value ≤ 30⟩
       footer := "SilenceWatch".toList
       ts := now / 1000 }]

/-- The texts of a payload that Slack reads for control sequences, in their order. -/
def SlackPayload.texts (payload : SlackPayload) : List (List Char) :=
  payload.text :: payload.attachments.flatMap fun attachment =>
    [attachment.fallback, attachment.title] ++
      (attachment.fields.flatMap fun field => [field.title, field.value]) ++ [attachment.footer]

/-- How the three replacements together write a character. -/
def slackText (c : Char) : List Char :=
  if c = '&' then "&amp;".toList
  else if c = '<' then "&lt;".toList
  else if c = '>' then "&gt;".toList
  else [c]

/-- Replacements one after another replace the characters of what the first one wrote. -/
theorem replaceAll_flatMap (c : Char) (by' : List Char) (write : Char → List Char)
    (value : List Char) :
    replaceAll c by' (value.flatMap write) = value.flatMap fun d => replaceAll c by' (write d) :=
  List.flatMap_assoc

/-- `&` is replaced first, so no replacement sees what an earlier one wrote: each character is
escaped once. -/
theorem escapeSlack_eq (value : List Char) : escapeSlack value = value.flatMap slackText := by
  have hfirst : replaceAll '&' "&amp;".toList value =
      value.flatMap fun d => if d = '&' then "&amp;".toList else [d] := rfl
  rw [escapeSlack, hfirst, replaceAll_flatMap, replaceAll_flatMap]
  congr 1
  funext c
  by_cases hamp : c = '&'
  · subst hamp
    decide
  by_cases hlt : c = '<'
  · subst hlt
    decide
  by_cases hgt : c = '>'
  · subst hgt
    decide
  simp [replaceAll, slackText, hamp, hlt, hgt]

theorem escapeSlack_append (value rest : List Char) :
    escapeSlack (value ++ rest) = escapeSlack value ++ escapeSlack rest := by
  rw [escapeSlack_eq, escapeSlack_eq, escapeSlack_eq, List.flatMap_append]

/-- A text without characters that are escaped. -/
def SlackPlain (value : List Char) : Prop := ∀ c ∈ value, c ≠ '&' ∧ c ≠ '<' ∧ c ≠ '>'

instance SlackPlain.decidable : DecidablePred SlackPlain := fun value =>
  List.decidableBAll _ value

/-- Plain text is sent as it is. -/
theorem escapeSlack_plain {value : List Char} (h : SlackPlain value) :
    escapeSlack value = value := by
  rw [escapeSlack_eq]
  induction value with
  | nil => rfl
  | cons c value ih =>
    obtain ⟨hamp, hlt, hgt⟩ := h c List.mem_cons_self
    rw [List.flatMap_cons, ih fun d hd => h d (List.mem_cons_of_mem _ hd), slackText, if_neg hamp,
      if_neg hlt, if_neg hgt, List.singleton_append]

/-- What stands behind the `&` of an entity. -/
def slackEntities : List (List Char) := ["amp;".toList, "lt;".toList, "gt;".toList]

/-- A text that is made of the three entities and of characters that are none of `&`, `<`
and `>`. -/
inductive SlackSafe : List Char → Prop
  | nil : SlackSafe []
  | entity (name : List Char) {rest : List Char} (hname : name ∈ slackEntities) (hrest : SlackSafe rest) :
    SlackSafe ('&' :: (name ++ rest))
  | char {c : Char} {rest : List Char} (hplain : c ≠ '&' ∧ c ≠ '<' ∧ c ≠ '>')
    (hrest : SlackSafe rest) : SlackSafe (c :: rest)

/-- An escaped character is one of these. -/
theorem slackSafe_slackText (c : Char) {rest : List Char} (hrest : SlackSafe rest) :
    SlackSafe (slackText c ++ rest) := by
  unfold slackText
  split_ifs with hamp hlt hgt
  · exact .entity "amp;".toList (by decide) hrest
  · exact .entity "lt;".toList (by decide) hrest
  · exact .entity "gt;".toList (by decide) hrest
  · exact .char ⟨hamp, hlt, hgt⟩ hrest

theorem slackSafe_escapeSlack (value : List Char) : SlackSafe (escapeSlack value) := by
  rw [escapeSlack_eq]
  induction value with
  | nil => exact .nil
  | cons c value ih => exact slackSafe_slackText c ih

/-- An escaped character can be told from what follows it. -/
theorem slackText_append_inj {c d : Char} {rest rest' : List Char}
    (h : slackText c ++ rest = slackText d ++ rest') : c = d ∧ rest = rest' := by
  unfold slackText at h
  split_ifs at h
  all_goals simp_all
  -- An entity is no text of one character.
  all_goals exact absurd h.1.symm ‹¬d = '&'›

/-- Nothing is lost by the escape. -/
theorem escapeSlack_injective : Function.Injective escapeSlack := by
  intro value value' h
  rw [escapeSlack_eq, escapeSlack_eq] at h
  have hne : ∀ c, slackText c ≠ [] := fun c => by
    unfold slackText
    split_ifs <;> simp
  induction value generalizing value' with
  | nil =>
    cases value' with
    | nil => rfl
    | cons d value' => exact absurd (List.append_eq_nil_iff.mp h.symm).1 (hne d)
  | cons c value ih =>
    cases value' with
    | nil => exact absurd (List.append_eq_nil_iff.mp h).1 (hne c)
    | cons d value' =>
      obtain ⟨rfl, hrest⟩ := slackText_append_inj h
      rw [ih hrest]

/-- The labels of a message. -/
def alertLabels : List String :=
  ["Check", "Project", "Environment", "Schedule", "Grace period", "Last ping", "Expected by",
    "Silent since", "Was down for", "Tags", "Cause"]

theorem label_mem {alert : Alert} {now : ℤ} {field : AlertField}
    (h : field ∈ alertFields alert now) : ∃ label ∈ alertLabels, field.label = label.toList := by
  simp only [alertFields, List.mem_append, List.mem_cons, List.not_mem_nil, or_false] at h
  rcases h with ((rfl | rfl | rfl | rfl | rfl | rfl | rfl | rfl) | htags) | hcause
  all_goals try exact ⟨_, by decide, rfl⟩
  · cases alert.kind
    all_goals exact ⟨_, by decide, rfl⟩
  · split at htags
    · obtain rfl := List.mem_singleton.mp htags
      exact ⟨_, by decide, rfl⟩
    · cases htags
  · split at hcause
    · obtain rfl := List.mem_singleton.mp hcause
      exact ⟨_, by decide, rfl⟩
    · cases hcause

/-- The labels of a message need no escape. -/
theorem plain_label {alert : Alert} {now : ℤ} {field : AlertField}
    (h : field ∈ alertFields alert now) : SlackPlain field.label := by
  have hall : ∀ label ∈ alertLabels, SlackPlain label.toList := by
    decide
  obtain ⟨label, hlabel, heq⟩ := label_mem h
  rw [heq]
  exact hall label hlabel

/-- The texts of a payload before they are escaped. -/
def SlackSender.content (alert : Alert) (rendered : RenderedAlert) : List (List Char) :=
  ((if alert.kind = .down then ":red_circle:".toList else ":large_green_circle:".toList) ++
      ' ' :: rendered.headline) ::
    ([rendered.headline, alert.check.name] ++
      (rendered.fields.flatMap fun field => [field.label, field.value]) ++
      ["SilenceWatch".toList])

/-- The texts of a payload are what was rendered, escaped: the labels, which are not, need no
escape. -/
theorem texts_buildPayload (alert : Alert) (rendered now : ℤ) :
    (SlackSender.buildPayload alert (renderAlert alert rendered) now).texts =
      (SlackSender.content alert (renderAlert alert rendered)).map escapeSlack := by
  have hbadge : SlackPlain ((if alert.kind = .down then ":red_circle:".toList
      else ":large_green_circle:".toList) ++ [' ']) := by
    split <;> decide
  have htext := escapeSlack_append ((if alert.kind = .down then ":red_circle:".toList
      else ":large_green_circle:".toList) ++ [' ']) (renderAlert alert rendered).headline
  rw [escapeSlack_plain hbadge, List.append_assoc, List.append_assoc] at htext
  have hfooter : escapeSlack "SilenceWatch".toList = "SilenceWatch".toList :=
    escapeSlack_plain (by decide)
  have hfields : ((renderAlert alert rendered).fields.flatMap fun field =>
      [field.label, escapeSlack field.value]) = ((renderAlert alert rendered).fields.flatMap
        fun field => [field.label, field.value]).map escapeSlack := by
    rw [List.map_flatMap]
    apply List.flatMap_congr
    intro field hfield
    rw [List.map_cons, List.map_singleton, escapeSlack_plain (plain_label hfield)]
  simp only [SlackPayload.texts, SlackSender.buildPayload, SlackSender.content,
    List.flatMap_cons, List.flatMap_nil, List.flatMap_map, List.append_nil, List.map_cons,
    List.map_append, List.map_nil, hfooter, hfields]
  exact congrArg₂ List.cons htext.symm rfl

/-- **Nothing that was typed is a control sequence.** Every text of the message that is built
for Slack is made of characters other than `&`, `<` and `>` and of the three entities, and two
messages with the same texts were rendered with the same texts. -/
theorem slack_texts_escaped (alert : Alert) (rendered now : ℤ) :
    (∀ text ∈ (SlackSender.buildPayload alert (renderAlert alert rendered) now).texts,
      SlackSafe text) ∧
    ∀ (alert' : Alert) (rendered' now' : ℤ),
      (SlackSender.buildPayload alert' (renderAlert alert' rendered') now').texts =
        (SlackSender.buildPayload alert (renderAlert alert rendered) now).texts →
      SlackSender.content alert' (renderAlert alert' rendered') =
        SlackSender.content alert (renderAlert alert rendered) := by
  refine ⟨fun text htext => ?_, fun alert' rendered' now' h => ?_⟩
  · rw [texts_buildPayload] at htext
    obtain ⟨value, _, rfl⟩ := List.mem_map.mp htext
    exact slackSafe_escapeSlack value
  · rw [texts_buildPayload, texts_buildPayload] at h
    exact List.map_injective_iff.mpr escapeSlack_injective h

/-- A name that would notify a whole channel is sent as text. -/
example : escapeSlack "<!channel> down".toList = "&lt;!channel&gt; down".toList := by
  decide

end SilenceWatch
