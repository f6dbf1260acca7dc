import ImportGuard.Finding
import ImportGuard.Proofs.Text.Quoting

/-!
# The words of a cause

The words of a cause start with a letter of their own for each kind of cause
(`initial_eq_of_message_eq`).  Behind that they are fixed text with quoted texts in it, and at the end a
suggestion if there is one.  A quoted text shows where it ends, whatever it holds: a double quote or
a backslash in it, or the very words that follow it in a message.  So **the words tell the cause**
(`message_eq_iff`), as long as no text has a character that quoting cannot show.
-/

namespace ImportGuard

/-- A text without characters that quoting cannot show. -/
def Legible (text : String) : Prop :=
  ∀ c ∈ text.toList, ¬ (isPrintable c = false ∧ 0xFFFF < c.toNat)

theorem legible_of_all {text : String} (h : text.toList.all (·.toNat ≤ 0xFFFF) = true) :
    Legible text := by
  rintro c hc ⟨-, hhigh⟩
  have hle := of_decide_eq_true (List.all_eq_true.1 h c hc)
  omega

/-- A legible text, once quoted, is known from any text that starts with it. -/
theorem Legible.quote_append_inj {a b x y : String} (ha : Legible a) (hb : Legible b)
    (h : quote a ++ x = quote b ++ y) : a = b ∧ x = y := by
  have hchars := congrArg String.toList h
  rw [String.toList_append, String.toList_append] at hchars
  obtain ⟨hab, hxy⟩ := Quoted.quoteWith_append_inj ha hb hchars
  exact ⟨hab, String.toList_inj.1 hxy⟩

theorem Legible.quote_inj {a b : String} (ha : Legible a) (hb : Legible b)
    (h : quote a = quote b) : a = b := by
  have hends : quote a ++ "" = quote b ++ "" := by rw [h]
  exact (ha.quote_append_inj hb hends).1

theorem head?_toList_append {first : String} (h : first.toList ≠ []) (rest : String) :
    (first ++ rest).toList.head? = first.toList.head? := by
  rw [String.toList_append, List.head?_append_of_ne_nil first.toList h]

namespace Cause

theorem message_package (path suggestion : String) :
    (package path suggestion).message =
      "package " ++ (quote path ++ (" shouldn't be imported" ++ suggested suggestion)) := by
  show "package " ++ quote path ++ " shouldn't be imported" ++ suggested suggestion = _
  rw [String.append_assoc, String.append_assoc]

theorem message_declaration (name path suggestion : String) :
    (declaration name path suggestion).message =
      "declaration " ++ (quote name ++ (" from package " ++ (quote path ++
        (" shouldn't be used" ++ suggested suggestion)))) := by
  show "declaration " ++ quote name ++ " from package " ++ quote path ++ " shouldn't be used" ++
    suggested suggestion = _
  rw [String.append_assoc, String.append_assoc, String.append_assoc, String.append_assoc]

/-! ### How the words start -/

def initial : Cause → Char
  | package _ _ => 'p'
  | declaration _ _ _ => 'd'
  | missingReason => 'm'
  | misplacedFileIgnore => 'f'

theorem head?_message (cause : Cause) : cause.message.toList.head? = some cause.initial := by
  cases cause with
  | package path suggestion =>
    rw [message_package, head?_toList_append (by decide)]
    show "package ".toList.head? = some 'p'
    decide
  | declaration name path suggestion =>
    rw [message_declaration, head?_toList_append (by decide)]
    show "declaration ".toList.head? = some 'd'
    decide
  | missingReason => decide
  | misplacedFileIgnore => decide

theorem initial_eq_of_message_eq {c d : Cause} (h : c.message = d.message) :
    c.initial = d.initial := by
  have hhead := c.head?_message
  rw [h, d.head?_message] at hhead
  exact (Option.some.inj hhead).symm

/-! ### What the words tell -/

def texts : Cause → List String
  | package path suggestion => [path, suggestion]
  | declaration name path suggestion => [name, path, suggestion]
  | missingReason | misplacedFileIgnore => []

theorem suggested_inj {a b : String} (ha : Legible a) (hb : Legible b)
    (h : suggested a = suggested b) : a = b := by
  have hne : ∀ text : String, ", suggested: " ++ quote text ≠ "" := by
    intro text hempty
    exact absurd (String.append_eq_empty_iff.1 hempty).1 (by decide)
  unfold suggested at h
  split_ifs at h with hempty hempty' hempty'
  · rw [hempty, hempty']
  · exact absurd h.symm (hne b)
  · exact absurd h (hne a)
  · exact ha.quote_inj hb ((String.append_right_inj _).1 h)

theorem package_inj {path path' suggestion suggestion' : String}
    (hpath : Legible path) (hpath' : Legible path') (hsuggestion : Legible suggestion)
    (hsuggestion' : Legible suggestion')
    (h : (package path suggestion).message = (package path' suggestion').message) :
    path = path' ∧ suggestion = suggestion' := by
  rw [message_package, message_package, String.append_right_inj] at h
  obtain ⟨hsame, hend⟩ := hpath.quote_append_inj hpath' h
  exact ⟨hsame, suggested_inj hsuggestion hsuggestion' ((String.append_right_inj _).1 hend)⟩

theorem declaration_inj {name name' path path' suggestion suggestion' : String}
    (hname : Legible name) (hname' : Legible name') (hpath : Legible path)
    (hpath' : Legible path') (hsuggestion : Legible suggestion)
    (hsuggestion' : Legible suggestion')
    (h : (declaration name path suggestion).message =
      (declaration name' path' suggestion').message) :
    name = name' ∧ path = path' ∧ suggestion = suggestion' := by
  rw [message_declaration, message_declaration, String.append_right_inj] at h
  obtain ⟨hsame, hrest⟩ := hname.quote_append_inj hname' h
  obtain ⟨hsame', hend⟩ := hpath.quote_append_inj hpath' ((String.append_right_inj _).1 hrest)
  exact ⟨hsame, hsame',
    suggested_inj hsuggestion hsuggestion' ((String.append_right_inj _).1 hend)⟩

/-- **The words tell the cause.**  Two causes whose texts are legible have the same words only if
they are the same: of one kind, and with the same path, suggestion and name. -/
theorem message_eq_iff {a b : Cause} (ha : ∀ text ∈ a.texts, Legible text)
    (hb : ∀ text ∈ b.texts, Legible text) : a.message = b.message ↔ a = b := by
  refine ⟨fun h => ?_, congrArg message⟩
  have hinitial := initial_eq_of_message_eq h
  cases a with
  | package path suggestion =>
    cases b with
    | package path' suggestion' =>
      simp only [texts, List.forall_mem_cons] at ha hb
      obtain ⟨rfl, rfl⟩ := package_inj ha.1 hb.1 ha.2.1 hb.2.1 h
      rfl
    | declaration name' path' suggestion' => cases hinitial
    | missingReason => cases hinitial
    | misplacedFileIgnore => cases hinitial
  | declaration name path suggestion =>
    cases b with
    | package path' suggestion' => cases hinitial
    | declaration name' path' suggestion' =>
      simp only [texts, List.forall_mem_cons] at ha hb
      obtain ⟨rfl, rfl, rfl⟩ :=
        declaration_inj ha.1 hb.1 ha.2.1 hb.2.1 ha.2.2.1 hb.2.2.1 h
      rfl
    | missingReason => cases hinitial
    | misplacedFileIgnore => cases hinitial
  | missingReason =>
    cases b with
    | missingReason => rfl
    | package path' suggestion' => cases hinitial
    | declaration name' path' suggestion' => cases hinitial
    | misplacedFileIgnore => cases hinitial
  | misplacedFileIgnore =>
    cases b with
    | misplacedFileIgnore => rfl
    | package path' suggestion' => cases hinitial
    | declaration name' path' suggestion' => cases hinitial
    | missingReason => cases hinitial

def wordyPath : String := "a\" shouldn't be imported, suggested: \"b"

theorem message_eq_iff_wordy :
    (∀ text ∈ (package wordyPath "").texts, Legible text) ∧
      (∀ text ∈ (package "a" "b").texts, Legible text) ∧
      (package wordyPath "").message ≠ (package "a" "b").message := by
  have hlow : ∀ text ∈ [wordyPath, "", "a", "b"], text.toList.all (·.toNat ≤ 0xFFFF) = true := by
    decide
  have hwordy : ∀ text ∈ (package wordyPath "").texts, Legible text := by
    intro text htext
    exact legible_of_all (hlow text (List.mem_append_left ["a", "b"] htext))
  have hplain : ∀ text ∈ (package "a" "b").texts, Legible text := by
    intro text htext
    exact legible_of_all (hlow text (List.mem_append_right [wordyPath, ""] htext))
  refine ⟨hwordy, hplain, fun h => ?_⟩
  exact absurd ((message_eq_iff hwordy hplain).1 h) (by decide)

end Cause

end ImportGuard
