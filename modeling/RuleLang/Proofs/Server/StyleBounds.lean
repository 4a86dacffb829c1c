import RuleLang.Command.Format
import RuleLang.Proofs.Indent.Reindent
import RuleLang.Proofs.Server.CacheTransparency
import RuleLang.Proofs.Server.Publication

/-!
# RuleLang.Proofs.Server.StyleBounds

The width of a style that comes from outside, and what is written with it.

Widths come from the options of a server, from the messages of its clients, from the environment and
from the command line. All of them pass `Style.bounded`, and a message changes the style of a server
in no other way (`Server.Styled.react`), so every width lies between 1 and 16. Then the number of
spaces for a depth is at most 32 and is computed without overflow (`Style.InBounds.indentCount_eq`).

The edit cache knows nothing about bounds. Its entries hold edits in the style of their own key
(`EditCache.Styled`), and that is enough: a look-up finds entries with its own style only.
-/

namespace RuleLang

/-- A run of at most 32 spaces or of at most 2 tabs. -/
def Text.IsIndent (t : Text) : Prop :=
  (∃ n ≤ 32, t = List.replicate n 32) ∨ ∃ n ≤ 2, t = List.replicate n 9

/-! ## Styles -/

namespace Style

def InBounds (s : Style) : Prop := 1 ≤ s.unitWidth ∧ s.unitWidth ≤ 16

theorem inBounds_bounded (s : Style) : s.bounded.InBounds := by
  unfold bounded
  split
  · simp [InBounds, defaultWidth]
  · unfold normalize
    split
    · simp [InBounds, defaultWidth]
    · rename_i hle hpos
      simp only [maxWidth] at hle
      exact ⟨by omega, by omega⟩

section InBounds

variable {s : Style} (h : s.InBounds) (d : Depth)

include h

theorem InBounds.width_le : 0 ≤ (d.level : Int) * s.unitWidth ∧ d.level * s.unitWidth ≤ 32 := by
  obtain ⟨hlo, hhi⟩ := h
  cases d <;> simp only [Depth.level] <;> omega

/-- The product for a depth does not wrap around, and is not negative. -/
theorem InBounds.indentCount_eq :
    (indentCount d.level s.unitWidth : Int) = d.level * s.unitWidth := by
  obtain ⟨hlo, hhi⟩ := h.width_le d
  have hwrap : ((d.level : Int) * s.unitWidth).bmod 0x10000000000000000 =
      d.level * s.unitWidth := by
    apply Int.bmod_eq_of_le
    · omega
    · omega
  rw [indentCount, hwrap, Int.toNat_of_nonneg hlo]

theorem InBounds.indentCount_le : indentCount d.level s.unitWidth ≤ 32 := by
  have heq := h.indentCount_eq d
  have hle := (h.width_le d).2
  omega

theorem InBounds.isIndent_indentation : (s.indentation d.level).IsIndent := by
  have hnormal : s.normalize = s := by
    have hlo := h.1
    rw [normalize, if_neg (by omega)]
  unfold indentation
  split
  · exact .inl ⟨0, by omega, rfl⟩
  · split
    · rw [hnormal]
      exact .inl ⟨_, h.indentCount_le d, rfl⟩
    · exact .inr ⟨d.level, by cases d <;> decide, rfl⟩

end InBounds

end Style

/-! ## Edits -/

namespace Edit

/-- Does an edit put the indentation of some depth into a line? -/
def Indents (s : Style) (e : Edit) : Prop := ∃ d : Depth, e.text = s.indentation d.level

theorem indents_of_mem_compute {c : Catalog} {lines : List Text} {s : Style} {e : Edit}
    (h : e ∈ compute c lines s) : e.Indents s := by
  obtain ⟨-, -, d, -, -, -, rfl⟩ := (mem_compute c lines s e).1 h
  exact ⟨d, rfl⟩

theorem Indents.isIndent {s : Style} {e : Edit} (h : e.Indents s) (hs : s.InBounds) :
    e.text.IsIndent := by
  obtain ⟨d, hd⟩ := h
  rw [hd]
  exact hs.isIndent_indentation d

end Edit

namespace EditCache

def Styled (k : EditCache) : Prop :=
  ∀ entry ∈ k.entries, ∀ e ∈ entry.2, e.Indents entry.1.style

theorem styled_empty (size : Int) : (empty size).Styled := by
  intro entry hentry
  simp [empty] at hentry

variable {k : EditCache}

theorem Styled.get_fst (h : k.Styled) (c : Catalog) (t : Text) (s : Style) {e : Edit}
    (he : e ∈ (k.get c t s).1) : e.Indents s := by
  rcases (k.get_cases c t s).1 with hstored | hcomputed
  · exact h _ hstored e he
  · rw [hcomputed] at he
    exact Edit.indents_of_mem_compute he

theorem Styled.get (h : k.Styled) (c : Catalog) (t : Text) (s : Style) : (k.get c t s).2.Styled := by
  intro entry hentry
  rcases (k.get_cases c t s).2 entry hentry with rfl | hold
  · intro e he
    exact h.get_fst c t s he
  · exact h entry hold

end EditCache

/-! ## Completion -/

/-- A keyword is offered behind the spaces of its depth, anything else as it is. -/
theorem CompletionItem.insert_of_mem_all {c : Catalog} {s : Style} (h : s.InBounds)
    {i : CompletionItem} (hi : i ∈ all c s.unitWidth) :
    (∃ e ∈ c.entries, ∃ n : Nat, n ≤ 32 ∧ (n : Int) = e.depth.level * s.unitWidth ∧
      i.label = e.label ∧ i.insert = List.replicate n 32 ++ e.snippet) ∨
    (i.isSnippet = false ∧ i.insert = []) := by
  have hwidth : max s.unitWidth 0 = s.unitWidth := by
    have hlo := h.1
    omega
  simp only [all, Catalog.candidates, hwidth, List.map_append, List.map_map, List.mem_append,
    List.mem_map, Function.comp_apply] at hi
  rcases hi with ((⟨e, he, rfl⟩ | ⟨t, -, rfl⟩) | ⟨t, -, rfl⟩) | ⟨t, -, rfl⟩
  · exact .inl ⟨e, he, _, h.indentCount_le e.depth, h.indentCount_eq e.depth, rfl, rfl⟩
  all_goals exact .inr ⟨rfl, rfl⟩

/-! ## Servers -/

namespace Server

structure Styled (s : Server) : Prop where
  style : s.style.InBounds
  cache : s.cache.Styled

theorem styled_start (c : Catalog) (version : Text) (style : Style) (size : Int) :
    (start c version style size).Styled :=
  ⟨Style.inBounds_bounded _, EditCache.styled_empty size⟩

@[simp] theorem amend_style (s : Server) (c : DocChange) : (s.amend c).style = s.style := by
  obtain ⟨uri, _ | t⟩ := c <;> rfl

variable {s : Server}

theorem Styled.react (h : s.Styled) (body : Text) : (s.react body).2.server.Styled := by
  have hstep := s.react_step body
  generalize (s.react body).2.server = s' at hstep ⊢
  generalize docChange? body = change at hstep
  cases hstep with
  | keep => exact h
  | prefer p => exact ⟨Style.inBounds_bounded _, h.cache⟩
  | shutDown => exact ⟨h.style, h.cache⟩
  | amend c => exact ⟨by rw [amend_style]; exact h.style, by rw [amend_cache]; exact h.cache⟩
  | lookUp uri t style _ => exact ⟨h.style, h.cache.get _ t style⟩

theorem Styled.after (h : s.Styled) (bodies : List Text) : (s.after bodies).Styled :=
  after_induction h fun _ body _ hs => hs.react body

theorem react_eq_handle {body : Text} {e : Envelope} (hread : Envelope.read? body = some e)
    (hm : Method.ofName e.method ≠ .other) : (s.react body).2 = s.handle e := by
  have hmethod : ¬ e.method = [] := by
    intro hempty
    rw [hempty, Method.ofName_nil] at hm
    exact hm rfl
  simp only [react, hread, List.isEmpty_iff, hmethod, if_false]

/-- What a formatting request gets, whether the document is open or not. -/
theorem Styled.send_formatting (h : s.Styled) {e : Envelope} {id : MessageId}
    {p : Params.Formatting} (hm : Method.ofName e.method = .formatting) (hid : e.id = some id)
    (hp : e.params.bind Params.formatting? = some p) :
    ∃ edits : List Edit, (s.handle e).send =
        some (response id (.arr (edits.map fun e => (TextEdit.ofEdit e).toJson))) ∧
      ∀ e ∈ edits, e.text.IsIndent := by
  cases ht : s.text? p.uri with
  | none => exact ⟨[], by simp [handle, hm, hp, ht, hid, Reaction.answer], by simp⟩
  | some t =>
    refine ⟨(s.cache.get s.catalog t p.options.bounded).1, ?_, ?_⟩
    · simp [handle, hm, hp, ht, hid, Reaction.answer]
    · intro edit hedit
      exact (h.cache.get_fst s.catalog t _ hedit).isIndent (Style.inBounds_bounded _)

theorem send_completion (s : Server) {e : Envelope} {id : MessageId} {p : Params.Place}
    (hm : Method.ofName e.method = .completion) (hid : e.id = some id)
    (hp : e.params.bind Params.place? = some p) :
    (s.handle e).send = some (response id
      (.arr ((CompletionItem.all s.catalog s.style.unitWidth).map CompletionItem.toJson))) := by
  simp [handle, hm, hp, hid, Reaction.answer]

end Server

/-- **The style is always in bounds.** After any messages the width of a server's style lies between
1 and 16, whatever style it was started with. So does the width that formatting options, the
environment or the command line ask for. With such a width the indentation of every depth is
computed without overflow and has at most 32 characters: every edit in the answer to a formatting
request, or of the format command, puts in at most 32 spaces or at most 2 tabs, and every keyword in
the answer to a completion request is its snippet behind at most 32 spaces. -/
theorem style_always_in_bounds :
    (∀ (c : Catalog) (version : Text) (style : Style) (size : Int) (messages : List Text),
      let s := (Server.start c version style size).after messages
      s.style.InBounds ∧
      ∀ (body : Text) (e : Envelope) (id : MessageId), Envelope.read? body = some e →
        e.id = some id →
        (∀ p, Method.ofName e.method = .formatting → e.params.bind Params.formatting? = some p →
          ∃ edits : List Edit, (s.react body).2.send = some (Server.response id
              (.arr (edits.map fun e => (TextEdit.ofEdit e).toJson))) ∧
            ∀ e ∈ edits, e.text.IsIndent) ∧
        (∀ p, Method.ofName e.method = .completion → e.params.bind Params.place? = some p →
          (s.react body).2.send = some (Server.response id
              (.arr ((CompletionItem.all c s.style.unitWidth).map CompletionItem.toJson))) ∧
            ∀ i ∈ CompletionItem.all c s.style.unitWidth,
              (∃ k ∈ c.entries, ∃ n : Nat, n ≤ 32 ∧ (n : Int) = k.depth.level * s.style.unitWidth ∧
                i.label = k.label ∧ i.insert = List.replicate n 32 ++ k.snippet) ∨
              (i.isSnippet = false ∧ i.insert = []))) ∧
    (∀ options : Style, options.bounded.InBounds) ∧
    (∀ env : Env, (Config.ofEnv env).style.InBounds) ∧
    (∀ o : FormatOptions, (FormatCommand.style o).InBounds ∧
      ∀ (c : Catalog) (lines : List Text), ∀ e ∈ Edit.compute c lines (FormatCommand.style o),
        e.text.IsIndent) ∧
    ∀ (s : Style) (d : Depth), s.InBounds →
      (indentCount d.level s.unitWidth : Int) = d.level * s.unitWidth ∧
        indentCount d.level s.unitWidth ≤ 32 := by
  refine ⟨?_, Style.inBounds_bounded, fun env => Style.inBounds_bounded _, ?_, ?_⟩
  · intro c version style size messages s
    have hs : s.Styled := (Server.styled_start c version style size).after messages
    have hcatalog : s.catalog = c := Server.after_catalog _ messages
    refine ⟨hs.style, ?_⟩
    intro body e id hread hid
    constructor
    · intro p hm hp
      rw [Server.react_eq_handle hread (by rw [hm]; simp)]
      exact hs.send_formatting hm hid hp
    · intro p hm hp
      rw [Server.react_eq_handle hread (by rw [hm]; simp), s.send_completion hm hid hp, hcatalog]
      exact ⟨rfl, fun i hi => CompletionItem.insert_of_mem_all hs.style hi⟩
  · intro o
    have hs : (FormatCommand.style o).InBounds := Style.inBounds_bounded _
    exact ⟨hs, fun c lines e he => (Edit.indents_of_mem_compute he).isIndent hs⟩
  · intro s d hs
    exact ⟨hs.indentCount_eq d, hs.indentCount_le d⟩

/-- A client asks for the widest indentation there is, opens a document, and then has it formatted
by sixteen spaces. -/
theorem style_always_in_bounds_huge_width :
    let setup := Json.record [("method", .lit "initialize"), ("params", .record
      [("initializationOptions", .record [("tabSize", .num (txt "9223372036854775807"))])])]
    let request := Json.record [("id", .int 1), ("method", .lit "textDocument/formatting"),
      ("params", .record [("textDocument", .record [("uri", .lit "a")]),
        ("options", .record [("tabSize", .int 16), ("insertSpaces", .bool true)])])]
    let s := (Server.start .builtin [] ⟨false, 100⟩ 1).after
      (setup.toText :: (twoDocuments.take 1).map Json.toText)
    s.style = ⟨false, 2⟩ ∧ s.style.InBounds ∧
      ∃ (id : MessageId) (edits : List Edit), (s.react request.toText).2.send = some
          (Server.response id (.arr (edits.map fun e => (TextEdit.ofEdit e).toJson))) ∧
        ∀ e ∈ edits, e.text.IsIndent := by
  intro setup request s
  obtain ⟨hs, hreplies⟩ := style_always_in_bounds.1 .builtin [] ⟨false, 100⟩ 1
    (setup.toText :: (twoDocuments.take 1).map Json.toText)
  have hrequest : (Envelope.read? request.toText).any (fun e => e.id.isSome &&
      Method.ofName e.method = .formatting && (e.params.bind Params.formatting?).isSome) = true := by
    decide +kernel
  rw [Option.any_eq_true] at hrequest
  obtain ⟨e, hread, he⟩ := hrequest
  simp only [Bool.and_eq_true, decide_eq_true_eq, Option.isSome_iff_exists] at he
  obtain ⟨⟨⟨id, hid⟩, hm⟩, p, hp⟩ := he
  have hreply := (hreplies request.toText e id hread hid).1 p hm hp
  unfold s
  exact ⟨by decide +kernel, hs, id, hreply⟩

end RuleLang
