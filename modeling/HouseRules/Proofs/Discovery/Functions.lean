import HouseRules.Proofs.Discovery.Gathering
import HouseRules.Proofs.Python.Signature

/-! The rules in a source text: one for each function that stands directly in it, as its docstring
and its signature describe it, or what is wrong with the first function that describes none. -/

namespace HouseRules

/-! ### Docstrings -/

namespace Python

/-- A string token without a prefix for bytes or replacement fields. -/
def IsPlain (token : List Char) : Prop :=
  ∀ c ∈ token.takeWhile (!isQuote ·), c ∈ ['r', 'R', 'u', 'U']

/-- A body starts with a single expression of plain string tokens, which denote a text next to each
other. -/
def HasDocstring (body : List Statement) (text : String) : Prop :=
  ∃ tokens parts rest, body = .expression [.string tokens] :: rest ∧
    List.Forall₂ (fun token part => IsPlain token ∧ decodeLiteral? token = some part) tokens parts ∧
    text = String.ofList parts.flatten

theorem mem_prefixes_of_toLower {c : Char} (h : c.toLower = 'r' ∨ c.toLower = 'u') :
    c ∈ ['r', 'R', 'u', 'U'] := by
  delta Char.toLower at h
  split at h
  · have code (x : Char) (e : c.val + 32 = x.val) : c.val = x.val - 32 := by
      rw [← e, UInt32.add_sub_cancel]
    obtain h | h := h
    · obtain rfl : c = 'R' := Char.ext (code 'r' (congrArg Char.val h))
      decide
    · obtain rfl : c = 'U' := Char.ext (code 'u' (congrArg Char.val h))
      decide
  · obtain rfl | rfl := h <;> decide

/-- Only plain tokens denote a text. -/
theorem isPlain_of_decodeLiteral? {token part : List Char} (h : decodeLiteral? token = some part) :
    IsPlain token := by
  rw [decodeLiteral?] at h
  split at h
  · cases h
  · rename_i accepted
    rw [Bool.or_eq_true, not_or, Bool.not_eq_true', Bool.not_eq_false] at accepted
    intro c mem
    have lower := List.all_eq_true.1 accepted.2 _ (List.mem_map_of_mem mem)
    exact mem_prefixes_of_toLower (by simpa using lower)

theorem mapM_decodeLiteral?_iff {tokens parts : List (List Char)} :
    tokens.mapM decodeLiteral? = some parts ↔
      List.Forall₂ (fun token part => IsPlain token ∧ decodeLiteral? token = some part)
        tokens parts := by
  induction tokens generalizing parts with
  | nil =>
    rw [List.mapM_nil, List.forall₂_nil_left_iff]
    exact ⟨fun h => (Option.some.inj h).symm, fun h => h ▸ rfl⟩
  | cons token tokens ih =>
    rw [List.mapM_cons, List.forall₂_cons_left_iff]
    constructor
    · intro h
      obtain ⟨part, first, h⟩ := Option.bind_eq_some_iff.1 h
      obtain ⟨others, rest, h⟩ := Option.bind_eq_some_iff.1 h
      cases h
      exact ⟨part, others, ⟨isPlain_of_decodeLiteral? first, first⟩, ih.1 rest, rfl⟩
    · rintro ⟨part, others, ⟨-, first⟩, rest, rfl⟩
      rw [first, ih.2 rest]
      rfl

theorem docstring?_eq_some_iff {body : List Statement} {text : String} :
    docstring? body = some text ↔ HasDocstring body text := by
  constructor
  · intro h
    unfold docstring? at h
    split at h
    · rename_i e rest
      cases e with
      | string tokens =>
        obtain ⟨parts, decoded, rfl⟩ := Option.map_eq_some_iff.1 (h : Expr.stringOf? tokens = some text)
        exact ⟨tokens, parts, rest, rfl, mapM_decodeLiteral?_iff.1 decoded, rfl⟩
      | _ => cases h
    · cases h
  · rintro ⟨tokens, parts, rest, rfl, decoded, rfl⟩
    exact Option.map_eq_some_iff.2 ⟨parts, mapM_decodeLiteral?_iff.2 decoded, rfl⟩

end Python

/-! ### Rules of functions -/

namespace RuleFile

open Python (KeywordOnlyAt DeclaredBy HasDocstring)

variable {o : Origin} {f : Function} {m : Python.Module}

/-- A rule is what a function describes: the docstring has a key, and the defaults of the
keyword-only parameters are literals. -/
structure Describes (o : Origin) (f : Function) (r : Rule) : Prop where
  documented : ∃ text, HasDocstring f.body text ∧
    RuleDoc.parse? text = some ⟨r.id, r.description⟩
  literal : ∀ i p, KeywordOnlyAt f.parameters i p → ∀ e, ¬p.Refuses e
  parameters : DeclaredBy f.parameters r.parameters
  function : r.function = f.name
  location : r.location = o.location
  ruleset : r.ruleset = o.ruleset
  excluded : r.excluded = !o.isEnabled r.id

theorem doc_eq_some_iff {doc : RuleDoc} :
    (Python.docstring? f.body).bind RuleDoc.parse? = some doc ↔
      ∃ text, HasDocstring f.body text ∧ RuleDoc.parse? text = some doc := by
  rw [Option.bind_eq_some_iff]
  simp only [Python.docstring?_eq_some_iff]

theorem rule_eq_ok_iff {r : Rule} : rule o f = .ok r ↔ Describes o f r := by
  constructor
  · intro h
    rw [rule] at h
    split at h
    · cases h
    · rename_i doc documented
      split at h
      · cases h
      · rename_i fields declared
        obtain ⟨literal, declares⟩ := Python.declaredParameters_eq_ok_iff.1 declared
        cases h
        exact ⟨doc_eq_some_iff.1 documented, literal, declares, rfl, rfl, rfl, rfl⟩
  · intro h
    rw [rule, doc_eq_some_iff.2 h.documented]
    simp only [Python.declaredParameters_eq_ok_iff.2 ⟨h.literal, h.parameters⟩]
    rw [← h.function, ← h.location, ← h.ruleset, ← h.excluded]

end RuleFile

end HouseRules
