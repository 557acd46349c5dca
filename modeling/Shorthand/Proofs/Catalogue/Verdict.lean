import Shorthand.Proofs.Catalogue.Exact
import Shorthand.Proofs.Stepwise

/-! # What is accepted of a text

An element of a text to import is accepted if a snippet can be made of it and its trigger is free,
among the snippets that were there and among those accepted from the elements before it. What is
skipped is skipped for a reason of its own.
-/
namespace Shorthand

open Json Text

def Snippet.Portable.Clashes (p q : Snippet.Portable) : Prop :=
  p.language = q.language ∧ lowered p.trigger = lowered q.trigger

namespace Catalogue

def memberText? (item : Tree) (name : String) : Option String :=
  (item.member? name).bind Tree.asString?

/-- An element offers a snippet if it is an object with a trigger that is not blank and a template
and a language that are not empty. The trigger counts without the blanks around it. -/
structure Offers (item : Tree) (p : Snippet.Portable) : Prop where
  trigger : ∃ trigger, memberText? item "trigger" = some trigger ∧ p.trigger = trimmed trigger
  template : memberText? item "template" = some p.template
  language : memberText? item "language" = some p.language
  trigger_ne : p.trigger ≠ ""
  template_ne : p.template ≠ ""
  language_ne : p.language ≠ ""

theorem Offers.unique {item : Tree} {p q : Snippet.Portable} (hp : Offers item p)
    (hq : Offers item q) : p = q := by
  obtain ⟨⟨t, ht, hpTrigger⟩, hpTemplate, hpLanguage, _⟩ := hp
  obtain ⟨⟨u, hu, hqTrigger⟩, hqTemplate, hqLanguage, _⟩ := hq
  obtain rfl : t = u := Option.some.inj (ht.symm.trans hu)
  obtain ⟨_, _, _⟩ := p
  obtain ⟨_, _, _⟩ := q
  rw [Snippet.Portable.mk.injEq]
  exact ⟨hpTrigger.trans hqTrigger.symm, Option.some.inj (hpTemplate.symm.trans hqTemplate),
    Option.some.inj (hpLanguage.symm.trans hqLanguage)⟩

theorem filledMember?_eq_some_iff {item : Tree} {name text : String} :
    filledMember? item name = some text ↔ memberText? item name = some text ∧ text ≠ "" := by
  simp [filledMember?, memberText?, Option.filter_eq_some_iff]

theorem candidate?_eq_some_iff {item : Tree} {p : Snippet.Portable} :
    candidate? item = some p ↔
      filledMember? item "trigger" = some p.trigger ∧
        filledMember? item "template" = some p.template ∧
        filledMember? item "language" = some p.language := by
  obtain ⟨trigger, template, language⟩ := p
  simp [candidate?, Option.bind_eq_some_iff]

/-- What is found in an element may still have a blank trigger. -/
theorem offers_of_candidate? {item : Tree} {q : Snippet.Portable} (h : candidate? item = some q)
    (hFilled : ¬ Lacks q.trigger q.template q.language) :
    Offers item ⟨trimmed q.trigger, q.template, q.language⟩ := by
  simp only [candidate?_eq_some_iff, filledMember?_eq_some_iff] at h
  obtain ⟨⟨hTrigger, _⟩, ⟨hTemplate, hTemplateNe⟩, hLanguage, hLanguageNe⟩ := h
  rw [Lacks, not_or] at hFilled
  exact ⟨⟨q.trigger, hTrigger, rfl⟩, hTemplate, hLanguage, hFilled.1, hTemplateNe, hLanguageNe⟩

/-- Why an element offers nothing: a member is not there, no text or empty, or the trigger is blank
without being empty. -/
inductive Flawed (item : Tree) : String → Prop
  | member {name : String} (hName : name ∈ ["trigger", "template", "language"])
      (h : ∀ text, memberText? item name = some text → text = "") :
      Flawed item "invalid snippet object"
  | blank {trigger template language : String}
      (hTrigger : memberText? item "trigger" = some trigger) (hTriggerNe : trigger ≠ "")
      (hBlank : trimmed trigger = "")
      (hTemplate : memberText? item "template" = some template) (hTemplateNe : template ≠ "")
      (hLanguage : memberText? item "language" = some language) (hLanguageNe : language ≠ "") :
      Flawed item "trigger, template and language are required"

theorem Flawed.not_offers {item : Tree} {detail : String} (h : Flawed item detail)
    (p : Snippet.Portable) : ¬ Offers item p := by
  rintro ⟨⟨trigger, hTrigger, hTrimmed⟩, hTemplate, hLanguage, hNe, hTemplateNe, hLanguageNe⟩
  cases h with
  | member hName hEmpty =>
    simp only [List.mem_cons, List.not_mem_nil, or_false] at hName
    obtain rfl | rfl | rfl := hName
    · apply hNe
      rw [hTrimmed, hEmpty trigger hTrigger]
      rfl
    · exact hTemplateNe (hEmpty _ hTemplate)
    · exact hLanguageNe (hEmpty _ hLanguage)
  | blank hTrigger' _ hBlank =>
    rw [hTrigger, Option.some.injEq] at hTrigger'
    rw [hTrimmed, hTrigger'] at hNe
    exact hNe hBlank

theorem flawed_of_candidate?_eq_none {item : Tree} (h : candidate? item = none) :
    Flawed item "invalid snippet object" := by
  have hMember {name : String} (hNone : filledMember? item name = none) :
      ∀ text, memberText? item name = some text → text = "" := by
    intro text hText
    by_contra hNe
    rw [filledMember?_eq_some_iff.mpr ⟨hText, hNe⟩] at hNone
    cases hNone
  cases hTrigger : filledMember? item "trigger" with
  | none => exact .member (by simp) (hMember hTrigger)
  | some trigger =>
    cases hTemplate : filledMember? item "template" with
    | none => exact .member (by simp) (hMember hTemplate)
    | some template =>
      cases hLanguage : filledMember? item "language" with
      | none => exact .member (by simp) (hMember hLanguage)
      | some language =>
        have hSome : candidate? item = some ⟨trigger, template, language⟩ :=
          candidate?_eq_some_iff.mpr ⟨hTrigger, hTemplate, hLanguage⟩
        rw [h] at hSome
        cases hSome

theorem flawed_of_lacks {item : Tree} {q : Snippet.Portable} (h : candidate? item = some q)
    (hLacks : Lacks q.trigger q.template q.language) :
    Flawed item "trigger, template and language are required" := by
  simp only [candidate?_eq_some_iff, filledMember?_eq_some_iff] at h
  obtain ⟨⟨hTrigger, hTriggerNe⟩, ⟨hTemplate, hTemplateNe⟩, hLanguage, hLanguageNe⟩ := h
  obtain hBlank | hEmpty | hEmpty := hLacks
  · exact .blank hTrigger hTriggerNe hBlank hTemplate hTemplateNe hLanguage hLanguageNe
  · exact absurd hEmpty hTemplateNe
  · exact absurd hEmpty hLanguageNe

inductive Verdict where
  | accepted (p : Snippet.Portable)
  | skipped (reason : CatalogueError)

/-- The verdict on an element while the snippets `held` are there. -/
def Judges (held : List Snippet.Portable) (item : Tree) : Verdict → Prop
  | .accepted p => Offers item p ∧ ∀ q ∈ held, ¬ q.Clashes p
  | .skipped reason =>
    (∃ p, Offers item p ∧ (∃ q ∈ held, q.Clashes p) ∧ reason = .taken p.trigger p.language) ∨
      ∃ detail, Flawed item detail ∧ reason = .incomplete detail

/-- An element of which no more can be made: what it offers, if anything, is taken. -/
def Spent (held : List Snippet.Portable) (item : Tree) : Prop :=
  ∀ p, Offers item p → ∃ q ∈ held, q.Clashes p

theorem Spent.mono {held more : List Snippet.Portable} {item : Tree} (h : Spent held item)
    (hMore : held ⊆ more) : Spent more item := by
  intro p hp
  obtain ⟨q, hq, hClash⟩ := h p hp
  exact ⟨q, hMore hq, hClash⟩

theorem spent_of_skipped {held : List Snippet.Portable} {item : Tree} {reason : CatalogueError}
    (h : Judges held item (.skipped reason)) : Spent held item := by
  intro p hp
  obtain ⟨q, hq, hTaken, _⟩ | ⟨_, hFlawed, _⟩ := h
  · rwa [hp.unique hq]
  · exact absurd hp (hFlawed.not_offers p)

theorem spent_of_accepted {held : List Snippet.Portable} {item : Tree} {p : Snippet.Portable}
    (h : Judges held item (.accepted p)) : Spent (held ++ [p]) item := by
  intro q hq
  refine ⟨p, by simp, ?_⟩
  rw [hq.unique h.1]
  exact ⟨rfl, rfl⟩

def Verdict.accepted? : Verdict → Option Snippet.Portable
  | .accepted p => some p
  | .skipped _ => none

def Verdict.reason? : Verdict → Option CatalogueError
  | .accepted _ => none
  | .skipped reason => some reason

/-- The snippets that were accepted, in the order of their elements. -/
def acceptedIn (log : List (Tree × Verdict)) : List Snippet.Portable :=
  log.filterMap fun e => e.2.accepted?

def skippedIn (log : List (Tree × Verdict)) : List CatalogueError :=
  log.filterMap fun e => e.2.reason?

/-- Each element is judged by what was there and what was accepted before it. -/
def Judged (old : List Snippet.Portable) (log : List (Tree × Verdict)) : Prop :=
  Stepwise (fun earlier e => Judges (old ++ acceptedIn earlier) e.1 e.2) log

theorem acceptedIn_concat (log : List (Tree × Verdict)) (item : Tree) (v : Verdict) :
    acceptedIn (log ++ [(item, v)]) = acceptedIn log ++ v.accepted?.toList := by
  cases v <;> simp [acceptedIn, Verdict.accepted?]

theorem skippedIn_concat (log : List (Tree × Verdict)) (item : Tree) (v : Verdict) :
    skippedIn (log ++ [(item, v)]) = skippedIn log ++ v.reason?.toList := by
  cases v <;> simp [skippedIn, Verdict.reason?]

theorem length_acceptedIn_add_skippedIn (log : List (Tree × Verdict)) :
    (acceptedIn log).length + (skippedIn log).length = log.length := by
  induction log using List.reverseRecOn with
  | nil => rfl
  | append_singleton log e ih =>
    obtain ⟨item, v⟩ := e
    have hOne : v.accepted?.toList.length + v.reason?.toList.length = 1 := by cases v <;> rfl
    simp only [acceptedIn_concat, skippedIn_concat, List.length_append, List.length_singleton]
    omega

theorem Judged.apart {old : List Snippet.Portable} {log : List (Tree × Verdict)}
    (h : Judged old log) :
    (acceptedIn log).Pairwise fun p q => ¬ p.Clashes q := by
  induction h with
  | nil => exact .nil
  | @concat log e _ hJudges ih =>
    obtain ⟨item, v⟩ := e
    rw [acceptedIn_concat]
    cases v with
    | skipped reason =>
      exact (List.append_nil (acceptedIn log)).symm ▸ ih
    | accepted p =>
      refine List.pairwise_append.mpr ⟨ih, List.pairwise_singleton _ _, ?_⟩
      intro q hq p' hp'
      rw [List.mem_singleton.mp hp']
      exact hJudges.2 q (List.mem_append_right _ hq)

section Import

variable {α : Type}

/-- What a catalogue holds, as far as it travels. -/
def held (c : Catalogue α) : List Snippet.Portable := c.snippets.map Snippet.portable

theorem isTaken_trimmed_iff {c : Catalogue α} {trigger template language : String} :
    c.isTaken (trimmed trigger) language none = true ↔
      ∃ q ∈ c.held, q.Clashes ⟨trimmed trigger, template, language⟩ := by
  rw [isTaken_iff, (isTrimmed_trimmed trigger).trimmed_eq, held]
  simp [Snippet.Portable.Clashes, Snippet.portable]

variable [Archive α]

theorem importItem_judged (c : Catalogue α) (item : Tree) :
    (∃ reason, Judges c.held item (.skipped reason) ∧
      ∀ tally, importItem (tally, c) item = (tally.skip reason, c)) ∨
    ∃ q, candidate? item = some q ∧
      Judges c.held item (.accepted (c.newSnippet q.trigger q.template q.language).portable) ∧
      c.add q.trigger q.template q.language =
        { c with
          snippets := c.snippets ++ [c.newSnippet q.trigger q.template q.language]
          supply := c.supply.next }.saving (c.newSnippet q.trigger q.template q.language) := by
  cases hItem : candidate? item with
  | none =>
    refine .inl ⟨_, .inr ⟨_, flawed_of_candidate?_eq_none hItem, rfl⟩, ?_⟩
    intro tally
    simp only [importItem, hItem]
  | some q =>
    have hOffers := offers_of_candidate? hItem
    obtain ⟨hLacks, hAdd⟩ | ⟨hFilled, hTaken, hAdd⟩ | ⟨hFilled, hFree, hAdd⟩ :=
      c.add_cases q.trigger q.template q.language
    · refine .inl ⟨_, .inr ⟨_, flawed_of_lacks hItem hLacks, rfl⟩, ?_⟩
      intro tally
      simp only [importItem, hItem, hAdd]
    · refine .inl ⟨_, .inl ⟨_, hOffers hFilled, isTaken_trimmed_iff.mp hTaken, rfl⟩, ?_⟩
      intro tally
      simp only [importItem, hItem, hAdd]
    · refine .inr ⟨q, rfl, ⟨hOffers hFilled, ?_⟩, hAdd⟩
      intro p hp hClash
      have hTaken : c.isTaken (trimmed q.trigger) q.language none = true :=
        isTaken_trimmed_iff.mpr ⟨p, hp, hClash⟩
      rw [hFree] at hTaken
      cases hTaken

end Import

end Catalogue

end Shorthand
