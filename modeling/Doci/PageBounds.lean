import Doci.PdfSystem
import Doci.TaskBounds

/-! How many pages of a run are worked on at a time, beside any other calls and runs. -/

namespace Doci

open Coroutine ReadCommitted

/-- The groups that the graphs open: of a run's pages under its bound, each page once, or of an
image's branches. -/
def GroupShape (cfg : MiningConfig) (jobs : List PageJob) (bound : Nat) : Prop :=
  (∃ input, ∃ refs : List PageRef, jobs = refs.map (PageJob.page input) ∧
      (refs.map PageRef.number).Nodup ∧ bound = cfg.concurrency) ∨
    ∀ input ref, PageJob.page input ref ∉ jobs

section Uses

variable {cfg : MiningConfig} {session : Session}

abbrev Opens (cfg : MiningConfig) : TaskCmd MiningCmd PageJob PageValue Exc → Prop :=
  TaskCmd.Own (GroupShape cfg)

theorem uses_imageGraph (input : ImageInput) : (imageGraph input).Uses (Opens cfg) := by
  apply (uses_gather (.inr fun _ _ => by simp)).bind
  exact fun _ => trivial

theorem uses_transcribeNode (input : ImageInput) : (transcribeNode input).Uses (Opens cfg) := by
  apply (uses_lift _).bind
  intro data
  apply (uses_gather (.inr fun _ _ => by simp)).bind
  intro values
  cases imagePasses values with
  | none => trivial
  | some both => exact uses_lift _

/-- The references of the pages are numbered as the pages are. -/
theorem splitPages_numbers (document : DocumentId) (pages : List SplitPage) :
    (splitPages cfg session document pages).Returns fun refs =>
      refs.map PageRef.number = pages.map SplitPage.number := by
  induction pages with
  | nil => rfl
  | cons page pages ih =>
    refine (Prog.Returns.of_all (fun _ => trivial) _).bind fun part (_ : True) => ?_
    refine ih.bind fun refs hrefs => ?_
    show page.number :: refs.map PageRef.number = page.number :: pages.map SplitPage.number
    rw [hrefs]

theorem splitNode_nodup (document : DocumentId) (media : Option MediaId) :
    (splitNode cfg session document media).Returns fun split =>
      (split.1.map PageRef.number).Nodup := by
  refine (Prog.Returns.of_all (fun _ => trivial) _).bind fun data (_ : True) => ?_
  refine (Prog.Returns.of_all (fun _ => trivial) _).bind fun _ (_ : True) => ?_
  refine (splitPages_numbers document (iterPages cfg data)).bind fun refs hrefs => ?_
  refine (Prog.Returns.of_all (fun _ => trivial) _).bind fun _ (_ : True) => ?_
  show (refs.map PageRef.number).Nodup
  rw [hrefs, iterPages_numbers]
  exact List.nodup_range'

theorem uses_pdfGraph (input : MiningInput) (media : Option MediaId) :
    (pdfGraph cfg session input media).Uses (Opens cfg) := by
  apply (uses_lift _).bind_returns ((splitNode_nodup input.document media).expand _)
  rintro ⟨pages, count⟩ hnodup
  apply Prog.Uses.bind
  · apply (uses_gather (.inl ⟨input, pages, rfl, hnodup, rfl⟩)).bind
    exact fun _ => trivial
  · exact fun _ => trivial

theorem uses_imageBranch (input : MiningInput) (media : MediaId) :
    (imageBranch input media).Uses (Opens cfg) := by
  apply (uses_lift _).bind
  intro part
  apply (uses_imageGraph _).bind
  intro result
  exact (uses_lift _).bind fun _ => trivial

theorem uses_miningAttempt (attempt : Attempt) : (attempt.run cfg session).Uses (Opens cfg) := by
  apply Prog.Uses.bind
  · unfold Attempt.graph
    split
    · apply (uses_lift _).bind
      intro doc
      dsimp only
      split
      · exact uses_pdfGraph _ _
      · exact uses_imageBranch _ _
      · trivial
    · exact (uses_lift _).bind fun doc => uses_imageBranch _ _
    · exact (uses_lift _).bind fun doc => uses_pdfGraph _ _
  · exact fun mined => uses_lift _

theorem uses_pageJob (j : PageJob) : (j.run cfg).Uses (Opens cfg) := by
  cases j with
  | page input ref =>
    simp only [PageJob.run]
    split
    · exact uses_lift _
    · apply Prog.Uses.bind
      · apply (uses_imageGraph _).bind
        exact fun result => (uses_lift _).bind fun _ => trivial
      · exact fun _ => trivial
  | transcribe input => exact (uses_transcribeNode input).bind fun _ => trivial
  | thumbnail media => exact uses_lift _
  | extract image => exact uses_lift _
  | annotate image dossier reflect => exact uses_lift _

theorem mining_tidy : (mining cfg).Tidy (GroupShape cfg) where
  body := uses_pageJob
  env := by
    intro e s t new henv u hu
    cases e with
    | attempt attempt =>
      obtain ⟨_, rfl⟩ := Prod.mk.inj (Option.some.inj henv)
      obtain rfl := List.mem_singleton.mp hu
      exact uses_miningAttempt attempt
    | store e =>
      obtain ⟨r, _, heq⟩ := Option.map_eq_some_iff.mp henv
      obtain ⟨_, rfl⟩ := Prod.mk.inj heq
      obtain ⟨thread, _, rfl⟩ := List.mem_map.mp hu
      exact uses_lift _

end Uses

/-- The pages of one attempt are worked on at most so many at a time, and none by two workers. -/
theorem pages_in_hand {cfg : MiningConfig} {start : Mine} {c : MiningConfiguration}
    {ok : MiningConfiguration → Move Exc (TaskEvent MiningEvent) → Prop}
    (reach : Reach (mining cfg).system ok ⟨⟨start, []⟩, []⟩ c) {g : Nat}
    {group : TaskGroup PageJob PageValue Exc} (hgroup : c.shared.groups[g]? = some group)
    {input : MiningInput} {ref : PageRef} (hpage : PageJob.page input ref ∈ group.jobs) :
    (∃ refs : List PageRef, group.jobs = refs.map (PageJob.page input) ∧
        (refs.map PageRef.number).Nodup) ∧
      (c.threads.filterMap (inHand g)).Nodup ∧
      (c.threads.filterMap (inHand g)).length ≤ cfg.concurrency := by
  have hhandled := handled_reach mining_tidy reach
  obtain ⟨hnodup, hlength⟩ := hhandled.bounded hgroup
  rcases hhandled.opened group (List.mem_of_getElem? hgroup) with
    ⟨input', refs, hjobs, hnumbers, hbound⟩ | hnone
  · rw [hjobs] at hpage
    obtain ⟨other, _, heq⟩ := List.mem_map.mp hpage
    obtain ⟨rfl, _⟩ := PageJob.page.inj heq
    exact ⟨⟨refs, hjobs, hnumbers⟩, hnodup, hbound ▸ hlength⟩
  · exact absurd hpage (hnone input ref)

def PageJob.isPage : PageJob → Bool
  | .page _ _ => true
  | _ => false

theorem two_pages_in_hand : ∃ c : MiningConfiguration, ∃ g,
    ∃ group : TaskGroup PageJob PageValue Exc, ∃ input,
    c.shared.groups[g]? = some group ∧ group.jobs.length = 3 ∧
    (c.threads.filterMap (inHand g)).length = 2 ∧
    (∃ refs : List PageRef, group.jobs = refs.map (PageJob.page input) ∧
        (refs.map PageRef.number).Nodup) ∧
      (c.threads.filterMap (inHand g)).Nodup ∧
      (c.threads.filterMap (inHand g)).length ≤ plainMining.concurrency := by
  have hrun : ((mining plainMining).system.execWhen pdfMove (uploaded ++ splitUp) ⟨⟨newMine, []⟩, []⟩).any
      (fun c => (c.shared.groups[0]?).any (fun group => group.jobs.length = 3 &&
        group.jobs.any PageJob.isPage) && (c.threads.filterMap (inHand 0)).length = 2) = true := by
    decide +kernel
  obtain ⟨c, hc, hall⟩ := (Option.any_eq_true _ _).mp hrun
  simp only [Bool.and_eq_true, decide_eq_true_eq, Option.any_eq_true, List.any_eq_true] at hall
  obtain ⟨⟨group, hgroup, hthree, j, hj, hpage⟩, hlength⟩ := hall
  cases j with
  | page input ref =>
    have reach : Reach (mining plainMining).system (fun _ _ => True) ⟨⟨newMine, []⟩, []⟩ c :=
      Reach.start.execWhen (fun _ _ _ _ => trivial) hc
    exact ⟨c, 0, group, input, hgroup, hthree, hlength, pages_in_hand reach hgroup hj⟩
  | _ => cases hpage

end Doci
