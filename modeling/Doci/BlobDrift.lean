import Doci.Blobs

/-! A blob is read back as it was written, with minor drift, and under no other major. -/

namespace Doci.Blobs

open Numerals

section Version

variable {data : CharData} {digits : List Digit} {rest : List (List Digit)}

theorem digitChar_plain (d : Digit) : isSpace (digitChar d) = false ∧ digitChar d ≠ '_' ∧
    digitChar d ≠ '-' ∧ digitChar d ≠ '+' ∧ digitChar d ≠ '.' ∧ digitChar d ≠ 'v' ∧ digitChar d ≠ 'V' := by
  revert d
  decide

theorem ne_dot_of_mem {c : Char} (hc : c ∈ digitChars digits) : decide (c ≠ '.') = true := by
  obtain ⟨d, -, rfl⟩ := mem_digitChars.mp hc
  simp [(digitChar_plain d).2.2.2.2.1]

theorem literalDigits_digitChars (h : digits ≠ []) : literalDigits data (digitChars digits) = some digits := by
  induction digits with
  | nil => contradiction
  | cons d digits ih =>
    cases digits with
    | nil => simp [digitChars, literalDigits, decimal_digitChar]
    | cons d' digits =>
      have htail := ih (List.cons_ne_nil d' digits)
      have hunderscore := (digitChar_plain d').2.1
      simp only [digitChars, List.map_cons] at htail ⊢
      simp only [literalDigits, decimal_digitChar, if_neg hunderscore, htail]

theorem strip_digitChars (digits : List Digit) : strip (digitChars digits) = digitChars digits := by
  have hdrop : ∀ digits : List Digit, (digitChars digits).dropWhile isSpace = digitChars digits := by
    intro digits
    cases digits with
    | nil => rfl
    | cons d digits =>
      have hcons : digitChars (d :: digits) = digitChar d :: digitChars digits := rfl
      rw [hcons, List.dropWhile_cons_of_neg (by simp [(digitChar_plain d).1])]
  have hreverse : (digitChars digits).reverse = digitChars digits.reverse := List.map_reverse.symm
  rw [strip, hdrop, hreverse, hdrop, ← hreverse, List.reverse_reverse]

theorem intOf_digitChars :
    intOf data (digitChars digits) =
      if digits ≠ [] ∧ digits.length ≤ 4300 then some (value digits : ℤ) else none := by
  cases digits with
  | nil => rfl
  | cons d digits =>
    have hcons : digitChars (d :: digits) = digitChar d :: digitChars digits := rfl
    obtain ⟨-, -, hminus, hplus, -⟩ := digitChar_plain d
    have hsign : splitSign (digitChars (d :: digits)) = (1, digitChars (d :: digits)) := by
      rw [hcons]
      unfold splitSign
      split
      · simp_all
      · simp_all
      · rfl
    have hread := @literalDigits_digitChars data _ (List.cons_ne_nil d digits)
    simp [intOf, strip_digitChars, hsign, hread]

/-- `vM[.N[.P]]`. -/
def versionText (digits : List Digit) (rest : List (List Digit)) : String :=
  String.ofList ('v' :: (digitChars digits ++ rest.flatMap fun minor => '.' :: digitChars minor))

theorem major_versionText : major data (versionText digits rest) = intOf data (digitChars digits) := by
  have hstop : (rest.flatMap fun minor => '.' :: digitChars minor).takeWhile (· ≠ '.') = [] := by
    cases rest <;> simp
  have hletters : ((digitChars digits ++ rest.flatMap fun minor => '.' :: digitChars minor).dropWhile
      fun c => c == 'v' || c == 'V') = digitChars digits ++ rest.flatMap fun minor => '.' :: digitChars minor := by
    cases digits with
    | nil => cases rest <;> simp [digitChars]
    | cons d digits =>
      obtain ⟨-, -, -, -, -, hv, hV⟩ := digitChar_plain d
      simp [digitChars, hv, hV]
  rw [major, versionText, String.toList_ofList, List.dropWhile_cons_of_pos (by rfl), hletters,
    List.takeWhile_append_of_pos fun c hc => ne_dot_of_mem hc, hstop, List.append_nil]

theorem major_current {current : String}
    (h : current ∈ [workflowInputVersion, workflowResultVersion, workflowMetadataVersion]) :
    major data current = some 1 := by
  have htext : ∀ minor : Digit, major data (versionText [1] [[minor]]) = some 1 := by
    intro minor
    rw [major_versionText, intOf_digitChars]
    rfl
  simp only [List.mem_cons, List.not_mem_nil, or_false] at h
  rcases h with rfl | rfl | rfl
  · exact htext 1
  · exact htext 0
  · exact htext 0

theorem requireCompatible_same {stored current : String} (hc : major data current = some 1)
    (h : major data stored = major data current) : requireCompatible data stored current = .ok () := by
  simp [requireCompatible, h, hc]

def RaisesValueError {α : Type} (result : Except BlobError α) : Prop :=
  ∃ e, result = .error e ∧ e.isValueError = true

theorem versionIn_other {d : Dict} {current : String} (hc : major data current = some 1)
    (hd : d.get "version" = some (.str (versionText digits rest))) (h : value digits ≠ 1) :
    RaisesValueError (versionIn data d current) := by
  have hcompatible : RaisesValueError (requireCompatible data (versionText digits rest) current) := by
    rw [requireCompatible, major_versionText, intOf_digitChars]
    split_ifs
    · have hne : (value digits : ℤ) ≠ 1 := by exact_mod_cast h
      exact ⟨.incompatible (versionText digits rest) current, by simp [hc, hne], rfl⟩
    · exact ⟨.literal _, rfl, rfl⟩
  obtain ⟨e, he, hvalue⟩ := hcompatible
  exact ⟨e, by simp only [versionIn, hd, he]; rfl, hvalue⟩

theorem RaisesValueError.bind {α β : Type} {result : Except BlobError α} (h : RaisesValueError result)
    (next : α → Except BlobError β) : RaisesValueError (result >>= next) := by
  obtain ⟨e, rfl, he⟩ := h
  exact ⟨e, rfl, he⟩

end Version

section Drift

variable {gone : List String} {d e : Dict} {k : String} {v : Json}

/-- `e` is `d` without the keys of `gone` and with other keys than those of `d`. -/
def Drifted (gone : List String) (d e : Dict) : Prop :=
  ∀ k v, d.get k = some v → e.get k = if k ∈ gone then none else some v

theorem drifted_self (d : Dict) : Drifted [] d d := by
  intro k v hk
  rw [hk, if_neg List.not_mem_nil]

theorem Drifted.getD (h : Drifted gone d e) (k : String) (default : Json) (hk : d.get k = some v) :
    (e.get k).getD default = if k ∈ gone then default else v := by
  rw [h k v hk]
  split_ifs <;> rfl

theorem get_filter (d : Dict) : Dict.get (d.filter fun entry => entry.1 ∉ gone) k =
    if k ∈ gone then none else d.get k := by
  induction d with
  | nil => simp [Dict.get]
  | cons entry d ih =>
    obtain ⟨key, value⟩ := entry
    simp only [Dict.get] at ih ⊢
    by_cases hk : k = key
    · subst hk
      by_cases hgone : k ∈ gone
      · rw [List.filter_cons_of_neg (by simpa using hgone), ih, if_pos hgone, if_pos hgone]
      · rw [List.filter_cons_of_pos (by simpa using hgone), if_neg hgone]
        simp
    · have hne : (k == key) = false := by simpa using hk
      have hskip : ∀ d : Dict, List.lookup k ((key, value) :: d) = d.lookup k := by
        intro d
        simp only [List.lookup_cons, hne]
      rw [hskip, ← ih]
      by_cases hgone : key ∈ gone
      · rw [List.filter_cons_of_neg (by simpa using hgone)]
      · rw [List.filter_cons_of_pos (by simpa using hgone), hskip]

theorem drifted_edit {added : Dict} (h : ∀ entry ∈ added, d.get entry.1 = none) :
    Drifted gone d (d.filter (fun entry => entry.1 ∉ gone) ++ added) := by
  intro k v hk
  have hadded : added.get k = none := by
    rw [Dict.get, List.lookup_eq_none_iff]
    intro entry hentry
    have hne : k ≠ entry.1 := by
      rintro rfl
      rw [h entry hentry] at hk
      cases hk
    exact bne_iff_ne.mpr hne
  have happend : ∀ c : Dict, Dict.get (c ++ added) k = (c.get k).or (added.get k) := fun c => Dict.get_update
  rw [happend, get_filter, hadded, hk]
  split_ifs <;> rfl

/-- The keys that are removed from a metadata blob and from its parts. -/
structure Removal where
  top : List String := []
  taskiq : List String := []
  langgraph : List String := []

/-- The parts of the engines drift as well, and what else is kept is the same. -/
def Removal.Part (r : Removal) (k : String) (v v' : Json) : Prop :=
  match v with
  | .obj d =>
    if k = "taskiq" then ∃ e, v' = .obj e ∧ Drifted r.taskiq d e
    else if k = "langgraph" then ∃ e, v' = .obj e ∧ Drifted r.langgraph d e
    else v' = v
  | _ => v' = v

def MetadataDrifted (r : Removal) (d e : Dict) : Prop :=
  ∀ k v, d.get k = some v → if k ∈ r.top then e.get k = none else ∃ v', e.get k = some v' ∧ r.Part k v v'

theorem metadataDrifted_self (d : Dict) : MetadataDrifted {} d d := by
  intro k v hk
  rw [if_neg List.not_mem_nil]
  refine ⟨v, hk, ?_⟩
  unfold Removal.Part
  split
  · split_ifs
    · exact ⟨_, rfl, drifted_self _⟩
    · exact ⟨_, rfl, drifted_self _⟩
    · rfl
  · rfl

end Drift

section Expected

/-- What is read when the keys of `gone` are missing. -/
def WorkflowInput.without (x : WorkflowInput) (gone : List String) : WorkflowInput where
  documentId := x.documentId
  dossierKey := if "dossier_key" ∈ gone then .null else x.dossierKey
  annotateReflect := if "annotate_reflect" ∈ gone then .bool false else x.annotateReflect
  version := if "version" ∈ gone then workflowInputVersion else x.version

def WorkflowResult.without (x : WorkflowResult) (gone : List String) : WorkflowResult where
  output := if "output" ∈ gone then .null else x.output
  error := if "error" ∈ gone then .null else x.error
  version := if "version" ∈ gone then workflowResultVersion else x.version

def TaskiqMeta.without (x : TaskiqMeta) (gone : List String) : TaskiqMeta where
  taskId := if "task_id" ∈ gone then .null else x.taskId

def LangGraphMeta.without (x : LangGraphMeta) (gone : List String) : LangGraphMeta where
  threadId := x.threadId
  checkpointId := if "checkpoint_id" ∈ gone then .null else x.checkpointId
  checkpointDeadline := if "checkpoint_deadline" ∈ gone then none else x.checkpointDeadline

def WorkflowMetadata.without (x : WorkflowMetadata) (r : Removal) : WorkflowMetadata where
  taskiq := if "taskiq" ∈ r.top then {} else x.taskiq.without r.taskiq
  langgraph := if "langgraph" ∈ r.top then none else x.langgraph.map (·.without r.langgraph)
  retryCount := if "retry_count" ∈ r.top then .int 0 else x.retryCount
  version := if "version" ∈ r.top then workflowMetadataVersion else x.version

def LangGraphMeta.settled (x : LangGraphMeta) : LangGraphMeta :=
  { x with checkpointDeadline := x.checkpointDeadline.map DateTime.settled }

/-- With the offset of its deadline as a fixed zone. -/
def WorkflowMetadata.settled (x : WorkflowMetadata) : WorkflowMetadata :=
  { x with langgraph := x.langgraph.map LangGraphMeta.settled }

/-- `==` of two parts, field by field. -/
def LangGraphMeta.Same (x y : LangGraphMeta) : Prop :=
  x.threadId = y.threadId ∧ x.checkpointId = y.checkpointId ∧
    Option.Rel DateTime.Same x.checkpointDeadline y.checkpointDeadline

def WorkflowMetadata.Same (x y : WorkflowMetadata) : Prop :=
  x.taskiq = y.taskiq ∧ Option.Rel LangGraphMeta.Same x.langgraph y.langgraph ∧
    x.retryCount = y.retryCount ∧ x.version = y.version

/-- The deadline, if there is one, is a local time that its zone neither repeats nor skips. -/
def WorkflowMetadata.PlainDeadline (x : WorkflowMetadata) : Prop :=
  ∀ graph ∈ x.langgraph, ∀ deadline ∈ graph.checkpointDeadline, ¬ deadline.Ambiguous

end Expected

section Parsed

variable {data : CharData} {gone : List String} {e : Dict}

theorem versionIn_drifted {stored current : String} (hc : major data current = some 1)
    (h : major data stored = major data current)
    (he : e.get "version" = if "version" ∈ gone then none else some (.str stored)) :
    versionIn data e current = .ok (if "version" ∈ gone then current else stored) := by
  rw [versionIn, he]
  split_ifs
  · simp only [requireCompatible_same hc rfl]
    rfl
  · simp only [requireCompatible_same hc h]
    rfl

theorem uuidIn_uuidText (u : Uuid) : uuidIn (.str (uuidText u)) = .ok u := by
  rw [uuidIn, uuidOf_uuidText]
  rfl

theorem dt_iso (t : Option DateTime) : dt (iso t) = .ok (t.map DateTime.settled) := by
  cases t with
  | none => rfl
  | some t =>
    simp only [iso, Option.map_some, Option.getD_some, dt, fromIsoformat_isoformat]
    rfl

theorem input_drifted {x : WorkflowInput} (hv : major data x.version = major data workflowInputVersion)
    (hg : "document_id" ∉ gone) (h : Drifted gone x.toJson e) :
    WorkflowInput.fromJson data e = .ok (x.without gone) := by
  have hversion := versionIn_drifted (major_current (by simp)) hv (h "version" _ rfl)
  have hdocument : e.get "document_id" = some (.str (uuidText x.documentId)) := by
    rw [h "document_id" _ rfl, if_neg hg]
  have hkey := h.getD "dossier_key" .null rfl
  have hreflect := h.getD "annotate_reflect" (.bool false) rfl
  simp only [WorkflowInput.fromJson, hversion, hdocument, uuidIn_uuidText, hkey, hreflect]
  rfl

theorem result_drifted {x : WorkflowResult} (hv : major data x.version = major data workflowResultVersion)
    (h : Drifted gone x.toJson e) : WorkflowResult.fromJson data e = .ok (x.without gone) := by
  have hversion := versionIn_drifted (major_current (by simp)) hv (h "version" _ rfl)
  have houtput := h.getD "output" .null rfl
  have herror := h.getD "error" .null rfl
  simp only [WorkflowResult.fromJson, hversion, houtput, herror]
  rfl

theorem taskiq_drifted {x : TaskiqMeta} (h : Drifted gone x.toJson e) :
    taskiqIn (.obj e) = .ok (x.without gone) := by
  have htask := h.getD "task_id" .null rfl
  simp only [taskiqIn, TaskiqMeta.fromJson, htask]
  rfl

theorem langgraph_drifted {x : LangGraphMeta} (hg : "thread_id" ∉ gone) (h : Drifted gone x.toJson e) :
    langgraphIn (.obj e) = .ok (some (x.without gone).settled) := by
  have hthread : e.get "thread_id" = some x.threadId := by rw [h "thread_id" _ rfl, if_neg hg]
  have hfilled : (Json.obj e).truthy = true := by
    cases e with
    | nil => cases hthread
    | cons => rfl
  have hcheckpoint := h.getD "checkpoint_id" .null rfl
  have hdeadline : dt ((e.get "checkpoint_deadline").getD .null) =
      .ok ((if "checkpoint_deadline" ∈ gone then none else x.checkpointDeadline).map DateTime.settled) := by
    rw [h.getD "checkpoint_deadline" .null rfl]
    split_ifs
    · rfl
    · exact dt_iso _
  rw [langgraphIn, if_pos hfilled]
  simp only [LangGraphMeta.fromJson, hthread, hdeadline, hcheckpoint]
  rfl

theorem metadata_drifted {x : WorkflowMetadata} {r : Removal}
    (hv : major data x.version = major data workflowMetadataVersion) (hg : "thread_id" ∉ r.langgraph)
    (h : MetadataDrifted r x.toJson e) : WorkflowMetadata.fromJson data e = .ok (x.without r).settled := by
  have hplain : ∀ k v, x.toJson.get k = some v → k ≠ "taskiq" → k ≠ "langgraph" →
      e.get k = if k ∈ r.top then none else some v := by
    intro k v hk htaskiq hlanggraph
    have hkey := h k v hk
    split_ifs at hkey ⊢
    · exact hkey
    · obtain ⟨v', he, hpart⟩ := hkey
      have heq : v' = v := by
        unfold Removal.Part at hpart
        split at hpart
        · rwa [if_neg htaskiq, if_neg hlanggraph] at hpart
        · exact hpart
      rw [he, heq]
  have hversion := versionIn_drifted (major_current (by simp)) hv
    (hplain "version" _ rfl (by decide) (by decide))
  have hretry : (e.get "retry_count").getD (.int 0) =
      if "retry_count" ∈ r.top then .int 0 else x.retryCount := by
    rw [hplain "retry_count" _ rfl (by decide) (by decide)]
    split_ifs <;> rfl
  have htaskiq : taskiqIn ((e.get "taskiq").getD .null) =
      .ok (if "taskiq" ∈ r.top then {} else x.taskiq.without r.taskiq) := by
    have hkey := h "taskiq" _ rfl
    split_ifs at hkey ⊢
    · rw [hkey]
      rfl
    · obtain ⟨_, he, part, rfl, hpart⟩ := hkey
      rw [he]
      exact taskiq_drifted hpart
  have hlanggraph : langgraphIn ((e.get "langgraph").getD .null) =
      .ok ((if "langgraph" ∈ r.top then none else x.langgraph.map (·.without r.langgraph)).map
        LangGraphMeta.settled) := by
    have hkey := h "langgraph" _ rfl
    split_ifs at hkey ⊢
    · rw [hkey]
      rfl
    · cases hgraph : x.langgraph with
      | none =>
        rw [hgraph] at hkey
        obtain ⟨_, he, rfl⟩ := hkey
        rw [he]
        rfl
      | some graph =>
        rw [hgraph] at hkey
        obtain ⟨_, he, part, rfl, hpart⟩ := hkey
        rw [he]
        exact langgraph_drifted hg hpart
  simp only [WorkflowMetadata.fromJson, hversion, htaskiq, hlanggraph, hretry]
  rfl

theorem graph_settled_same (x : LangGraphMeta) :
    x.settled.Same x ↔ ∀ deadline ∈ x.checkpointDeadline, ¬ deadline.Ambiguous := by
  cases hdeadline : x.checkpointDeadline with
  | none => simp [LangGraphMeta.Same, LangGraphMeta.settled, hdeadline]
  | some deadline =>
    simp [LangGraphMeta.Same, LangGraphMeta.settled, hdeadline, settled_same]

theorem metadata_settled_same (x : WorkflowMetadata) : x.settled.Same x ↔ x.PlainDeadline := by
  cases hgraph : x.langgraph with
  | none => simp [WorkflowMetadata.Same, WorkflowMetadata.settled, WorkflowMetadata.PlainDeadline, hgraph]
  | some graph =>
    simp [WorkflowMetadata.Same, WorkflowMetadata.settled, WorkflowMetadata.PlainDeadline, hgraph,
      graph_settled_same]

theorem other_major {d : Dict} {digits : List Digit} {rest : List (List Digit)}
    (hd : d.get "version" = some (.str (versionText digits rest))) (h : value digits ≠ 1) :
    RaisesValueError (WorkflowInput.fromJson data d) ∧ RaisesValueError (WorkflowResult.fromJson data d) ∧
      RaisesValueError (WorkflowMetadata.fromJson data d) :=
  ⟨(versionIn_other (major_current (by simp)) hd h).bind _, (versionIn_other (major_current (by simp)) hd h).bind _,
    (versionIn_other (major_current (by simp)) hd h).bind _⟩

end Parsed

def october (hour minute : ℕ) (h : hour < 24 ∧ minute < 60) : WallTime where
  date := ⟨2025, 10, 26, by decide, by decide, by decide, by decide, by decide, by decide⟩
  hour := hour
  minute := minute
  second := 0
  microsecond := 0
  hour_lt := h.1
  minute_lt := h.2
  second_lt := by decide
  microsecond_lt := by decide

def oneHour : UtcOffset := ⟨3600000000, by decide⟩

def twoHours : UtcOffset := ⟨7200000000, by decide⟩

/-- A zone whose clocks go back from three to two that night. -/
def autumn : Zone where
  offset wall fold :=
    if wall.micros < (october 2 0 (by decide)).micros then some twoHours
    else if wall.micros < (october 3 0 (by decide)).micros then some (if fold then oneHour else twoHours)
    else some oneHour

theorem autumn_repeats (fold : Bool) :
    autumn.offset (october 2 30 (by decide)) fold = some (if fold then oneHour else twoHours) := by
  have hafter : ¬ (october 2 30 (by decide)).micros < (october 2 0 (by decide)).micros := by decide +kernel
  have hbefore : (october 2 30 (by decide)).micros < (october 3 0 (by decide)).micros := by decide +kernel
  simp only [autumn, if_neg hafter, if_pos hbefore]

def nightRun : WorkflowMetadata where
  langgraph := some { threadId := .str "t1", checkpointDeadline := some { wall := october 2 30 (by decide), zone := some autumn } }

def storedInput : WorkflowInput where
  documentId := 7
  dossierKey := .str "contract"
  annotateReflect := .bool true

/-- What `from_json` makes of the blobs that `to_json` wrote, with minor drift, and of those with
another major. A deadline comes back with its offset as a fixed zone, and so equals the one that was
written unless its zone repeats or skips that local time. -/
theorem blobs_read (data : CharData) :
    (∀ x : WorkflowInput, major data x.version = major data workflowInputVersion →
      WorkflowInput.fromJson data x.toJson = .ok x ∧
      ∀ gone e, "document_id" ∉ gone → Drifted gone x.toJson e →
        WorkflowInput.fromJson data e = .ok (x.without gone)) ∧
    (∀ x : WorkflowResult, major data x.version = major data workflowResultVersion →
      WorkflowResult.fromJson data x.toJson = .ok x ∧
      ∀ gone e, Drifted gone x.toJson e → WorkflowResult.fromJson data e = .ok (x.without gone)) ∧
    (∀ x : WorkflowMetadata, major data x.version = major data workflowMetadataVersion →
      WorkflowMetadata.fromJson data x.toJson = .ok x.settled ∧
      (x.settled.Same x ↔ x.PlainDeadline) ∧
      ∀ r e, "thread_id" ∉ r.langgraph → MetadataDrifted r x.toJson e →
        WorkflowMetadata.fromJson data e = .ok (x.without r).settled) ∧
    ∀ (d : Dict) (digits : List Digit) (rest : List (List Digit)),
      d.get "version" = some (.str (versionText digits rest)) → value digits ≠ 1 →
      RaisesValueError (WorkflowInput.fromJson data d) ∧ RaisesValueError (WorkflowResult.fromJson data d) ∧
        RaisesValueError (WorkflowMetadata.fromJson data d) := by
  refine ⟨?_, ?_, ?_, ?_⟩
  · intro x hv
    exact ⟨input_drifted hv List.not_mem_nil (drifted_self _), fun _ _ => input_drifted hv⟩
  · intro x hv
    exact ⟨result_drifted hv (drifted_self _), fun _ _ => result_drifted hv⟩
  · intro x hv
    have hread := metadata_drifted hv List.not_mem_nil (metadataDrifted_self x.toJson)
    refine ⟨?_, metadata_settled_same x, fun _ _ => metadata_drifted hv⟩
    rw [hread]
    cases hgraph : x.langgraph <;> simp [WorkflowMetadata.settled, WorkflowMetadata.without, hgraph,
      TaskiqMeta.without, LangGraphMeta.without]
  · intro d digits rest
    exact other_major

theorem blobs_read_stored :
    WorkflowInput.fromJson plainData (storedInput.toJson.filter (fun entry =>
        entry.1 ∉ ["dossier_key", "version"]) ++ [("priority", .int 3)]) =
      .ok (storedInput.without ["dossier_key", "version"]) ∧
    WorkflowResult.fromJson plainData (WorkflowResult.toJson {}) = .ok {} ∧
    WorkflowMetadata.fromJson plainData nightRun.toJson = .ok nightRun.settled ∧
    RaisesValueError (WorkflowInput.fromJson plainData [("version", .str (versionText [2] [[0]]))]) := by
  obtain ⟨hinput, hresult, hmetadata, hother⟩ := blobs_read plainData
  refine ⟨(hinput storedInput rfl).2 _ _ (by decide) (drifted_edit ?_), (hresult {} rfl).1,
    (hmetadata nightRun rfl).1, (hother _ [2] [[0]] rfl (by decide)).1⟩
  intro entry hentry
  obtain rfl := List.mem_singleton.mp hentry
  rfl

/-- Half past two comes twice, and what is read back equals neither. -/
theorem deadline_read_differs :
    major plainData nightRun.version = major plainData workflowMetadataVersion ∧
      ¬ ∃ y, WorkflowMetadata.fromJson plainData nightRun.toJson = .ok y ∧ y.Same nightRun := by
  refine ⟨rfl, ?_⟩
  rintro ⟨y, hy, hsame⟩
  have hread := @metadata_drifted plainData nightRun.toJson nightRun {} rfl List.not_mem_nil (metadataDrifted_self _)
  obtain rfl : nightRun.settled = y := Except.ok.inj (hread.symm.trans hy)
  have hplain := (metadata_settled_same nightRun).mp hsame
  refine hplain _ rfl _ rfl fun hfolds => ?_
  have hoffsets := (autumn_repeats true).symm.trans (hfolds.trans (autumn_repeats false))
  exact absurd hoffsets (by decide)

end Doci.Blobs
