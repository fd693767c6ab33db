import Doci.Base64
import Doci.DossierSpec
import Doci.JsonText

/-! What the models are asked about a page, and the annotations that they answer, as texts. -/

namespace Doci

structure FieldSpec where
  name : String
  hint : Option String

/-- The items are the dossier's document definitions. -/
structure DossierSpec where
  key : String
  name : String
  items : List DocumentDef

structure TextFact where
  subject : String
  value : String
  source : String

structure TextAnnotation where
  category : String
  description : String
  keyFeatures : List String := []
  facts : List TextFact := []
  itemKey : Option String := none

structure VisualElement where
  category : String
  description : String
  keyFeatures : List String := []

inductive Evidence where
  | stated | visual

def Evidence.text : Evidence → String
  | stated => "stated"
  | visual => "visual"

structure Fact where
  subject : String
  value : String
  evidence : Evidence
  source : String

structure ImageAnnotation where
  category : String
  description : String
  keyFeatures : List String := []
  elements : List VisualElement := []
  facts : List Fact := []
  itemKey : Option String := none

section Dump

def dumpTexts (texts : List String) : Json := .arr (texts.map .str)

def dumpKey : Option String → Json
  | none => .null
  | some key => .str key

def TextFact.dump (fact : TextFact) : Json :=
  .obj [("subject", .str fact.subject), ("value", .str fact.value), ("source", .str fact.source)]

def TextAnnotation.modelDump (answer : TextAnnotation) : Json :=
  .obj [("category", .str answer.category), ("description", .str answer.description),
    ("key_features", dumpTexts answer.keyFeatures),
    ("facts", .arr (answer.facts.map TextFact.dump)), ("item_key", dumpKey answer.itemKey)]

def VisualElement.dump (element : VisualElement) : Json :=
  .obj [("category", .str element.category), ("description", .str element.description),
    ("key_features", dumpTexts element.keyFeatures)]

def Fact.dump (fact : Fact) : Json :=
  .obj [("subject", .str fact.subject), ("value", .str fact.value),
    ("evidence", .str fact.evidence.text), ("source", .str fact.source)]

def ImageAnnotation.modelDump (answer : ImageAnnotation) : Json :=
  .obj [("category", .str answer.category), ("description", .str answer.description),
    ("key_features", dumpTexts answer.keyFeatures),
    ("elements", .arr (answer.elements.map VisualElement.dump)),
    ("facts", .arr (answer.facts.map Fact.dump)), ("item_key", dumpKey answer.itemKey)]

/-- `model_dump_json`. -/
def TextAnnotation.modelDumpJson (answer : TextAnnotation) : String :=
  JsonText.dumps answer.modelDump

def ImageAnnotation.modelDumpJson (answer : ImageAnnotation) : String :=
  JsonText.dumps answer.modelDump

open JsonText

theorem integral_items {α : Type} {f : α → Json} (h : ∀ a, Integral (f a)) (items : List α) :
    IntegralItems (items.map f) := by
  induction items with
  | nil => trivial
  | cons a items ih =>
    rw [List.map_cons, IntegralItems]
    exact ⟨h a, ih⟩

theorem integral_dumpTexts (texts : List String) : Integral (dumpTexts texts) := by
  rw [dumpTexts, Integral]
  exact integral_items (fun _ => by simp [Integral]) texts

theorem integral_dumpKey (key : Option String) : Integral (dumpKey key) := by
  cases key <;> simp [dumpKey, Integral]

theorem TextAnnotation.integral (answer : TextAnnotation) : Integral answer.modelDump := by
  simp only [modelDump, Integral, IntegralEntries, integral_dumpTexts, integral_dumpKey, true_and, and_true]
  exact integral_items (fun fact => by simp [TextFact.dump, Integral, IntegralEntries]) answer.facts

theorem ImageAnnotation.integral (answer : ImageAnnotation) : Integral answer.modelDump := by
  simp only [modelDump, Integral, IntegralEntries, integral_dumpTexts, integral_dumpKey, true_and, and_true]
  constructor
  · exact integral_items (fun element => by
      simp [VisualElement.dump, Integral, IntegralEntries, integral_dumpTexts]) answer.elements
  · exact integral_items (fun fact => by simp [Fact.dump, Integral, IntegralEntries]) answer.facts

theorem TextAnnotation.loads_dump (answer : TextAnnotation) :
    loads answer.modelDumpJson = some answer.modelDump := loads_dumps answer.integral

theorem ImageAnnotation.loads_dump (answer : ImageAnnotation) :
    loads answer.modelDumpJson = some answer.modelDump := loads_dumps answer.integral

end Dump

section Prompts

def lines (texts : List String) : String := "\n".intercalate texts

def fieldLine (field : FieldSpec) : String :=
  if truthy field.hint then "- " ++ field.name ++ ": " ++ field.hint.getD "" else "- " ++ field.name

def itemLine (item : DocumentDef) : String :=
  "- " ++ item.key ++ ": " ++ item.name ++
    (if truthy item.description then " — " ++ item.description.getD "" else "") ++
    (if truthy item.lookFor then "\n    look for: " ++ item.lookFor.getD "" else "")

def catalog (dossier : DossierSpec) : String := lines (dossier.items.map itemLine)

def withFields (instruction : String) (fields : List FieldSpec) : String :=
  if fields.isEmpty then instruction
  else instruction ++ "\n\nFields to look for (extract into facts if present):\n" ++
    lines (fields.map fieldLine)

def documentTag (text : String) : String := "\n\n<document>\n" ++ text ++ "\n</document>"

def firstPassTag (first : String) : String :=
  "\n\n<first_pass_annotation>\n" ++ first ++ "\n</first_pass_annotation>"

/-- The dossier, unless it has no items. -/
def namedDossier (dossier : Option DossierSpec) : Option DossierSpec :=
  dossier.filter fun dossier => !dossier.items.isEmpty

/-- `_user_prompt` of `annotate_text`. -/
def textPrompt (text : String) (fields : List FieldSpec) (dossier : Option DossierSpec) : String :=
  (match namedDossier dossier with
    | some dossier =>
      "This document is one document from the \"" ++ dossier.name ++ "\" dossier. " ++
        "Set `item_key` to a type's key only when this document's own " ++
        "title/heading/declared name — or content that clearly matches that " ++
        "type's description/“look for” note — identifies it as that type; " ++
        "otherwise set it to null. Never classify by topic or relatedness; " ++
        "do not guess. Then extract any audit-relevant facts the matched " ++
        "type's “look for” note calls out into `facts`.\n\nDocument types:\n" ++ catalog dossier
    | none => withFields "Annotate the document below." fields) ++ documentTag text

/-- `_reflect_prompt` of `annotate_text`. -/
def textReflectPrompt (text : String) (fields : List FieldSpec) (dossier : Option DossierSpec)
    (first : TextAnnotation) : String :=
  textPrompt text fields dossier ++ firstPassTag first.modelDumpJson

/-- `_user_prompt` of `annotate_image`. -/
def imagePrompt (fields : List FieldSpec) (dossier : Option DossierSpec) : String :=
  match namedDossier dossier with
  | some dossier =>
    "This image is one document from the \"" ++ dossier.name ++ "\" dossier. Set " ++
      "`item_key` to a type's key only when this page's own visible " ++
      "title/heading/letterhead/declared name — or content that clearly " ++
      "matches that type's description/“look for” note — identifies it as " ++
      "that type; otherwise set it to null. Never classify by subject " ++
      "matter or relatedness; do not guess. Then extract any audit-relevant " ++
      "facts the matched type's “look for” note calls out into `facts`." ++
      "\n\nDocument types:\n" ++ catalog dossier
  | none => withFields "Annotate this image." fields

/-- `_reflect_prompt` of `annotate_image`. -/
def imageReflectPrompt (fields : List FieldSpec) (dossier : Option DossierSpec)
    (first : ImageAnnotation) : String :=
  imagePrompt fields dossier ++ firstPassTag first.modelDumpJson

structure ImageMessage where
  prompt : String
  mimeType : String
  data : String

/-- What `detect_mime` raises is raised. -/
def imageMessage (zipNames : ZipNames) (prompt : String) (image : Bytes) :
    Except String ImageMessage := do
  let mime ← detectMime zipNames image none
  return {
    prompt
    mimeType := (mime.map Mime.text).getD "image/png"
    data := String.ofList (Base64.encode image) }

/-- The image can be read back from the message. -/
theorem imageMessage_data {zipNames : ZipNames} {prompt : String} {image : Bytes}
    {message : ImageMessage} (h : imageMessage zipNames prompt image = .ok message) :
    Base64.decode message.data.toList = some image := by
  unfold imageMessage at h
  cases hmime : detectMime zipNames image none with
  | error text =>
    rw [hmime] at h
    cases h
  | ok mime =>
    rw [hmime] at h
    obtain rfl := Except.ok.inj h
    rw [String.toList_ofList, Base64.decode_encode]

end Prompts

/-- A question to one of the models, without its system prompt. -/
inductive Question where
  | transcribe (message : ImageMessage)
  | annotateText (prompt : String)
  | reflectText (prompt : String)
  | annotateImage (message : ImageMessage)
  | reflectImage (message : ImageMessage)

/-- The content of a message: a text, or blocks of which some are texts. -/
inductive Content where
  | text (text : String)
  | blocks (blocks : List (Option String))

/-- `_as_text`. -/
def Content.asText : Content → String
  | .text s => s
  | .blocks parts => String.join (parts.map fun block => block.getD "")

abbrev Answer : Question → Type
  | .transcribe _ => Content
  | .annotateText _ => TextAnnotation
  | .reflectText _ => TextAnnotation
  | .annotateImage _ => ImageAnnotation
  | .reflectImage _ => ImageAnnotation

end Doci
