import BajaValle.Lib.Escaping
import BajaValle.Lib.Markup

/-!
# The contact mail

The texts of a contact form stand in a fixed page. They are escaped, and the line
breaks of the message become tags afterwards, so that every tag of the page is one
of the template or one such break, and every text can be read back.
-/

namespace BajaValle

open Escaping Markup

structure ContactMailDto where
  nombre : String
  apellido : String
  correo : String
  mensaje : String

def HTML_ESCAPES : List (Char × List Char) :=
  [('&', "&amp;".toList), ('<', "&lt;".toList), ('>', "&gt;".toList), ('"', "&quot;".toList),
    ('\'', "&#39;".toList)]

def htmlTable : Table Char where
  mark := '&'
  codes := HTML_ESCAPES
  mark_coded := by decide
  headed e he := by
    have all : ∀ e ∈ HTML_ESCAPES, e.2 = '&' :: e.2.tail ∧ '&' ∉ e.2.tail := by decide
    exact ⟨e.2.tail, all e he⟩
  prefixFree := by decide

def escapeHtml (value : String) : String := String.ofList (escape htmlTable value.toList)

/-- `.replace(/\r?\n/g, by)` -/
def replaceBreaks (by_ : List Char) : List Char → List Char
  | '\r' :: '\n' :: rest => by_ ++ replaceBreaks by_ rest
  | '\n' :: rest => by_ ++ replaceBreaks by_ rest
  | c :: rest => c :: replaceBreaks by_ rest
  | [] => []

namespace MailService

/-! The template, cut where its texts stand. -/

def HEADING : String :=
  "\n      <h2>Nuevo mensaje de contacto</h2>\n      <p><strong>Nombre:</strong> "

def CORREO_LABEL : String := "</p>\n      <p><strong>Correo:</strong> "

def MENSAJE_LABEL : String :=
  "</p>\n      <hr />\n      <p><strong>Mensaje:</strong></p>\n      <p>"

def ENDING : String := "</p>\n    "

def contactTemplate (nombre correo mensaje : String) : String :=
  HEADING ++ nombre ++ CORREO_LABEL ++ correo ++ MENSAJE_LABEL ++ mensaje ++ ENDING

def nombreHtml (dto : ContactMailDto) : String := escapeHtml (dto.nombre ++ " " ++ dto.apellido)

def correoHtml (dto : ContactMailDto) : String := escapeHtml dto.correo

def mensajeHtml (dto : ContactMailDto) : String :=
  String.ofList (replaceBreaks "<br />".toList (escapeHtml dto.mensaje).toList)

def buildContactHtml (dto : ContactMailDto) : String :=
  contactTemplate (nombreHtml dto) (correoHtml dto) (mensajeHtml dto)

end MailService

/-! ## Line breaks -/

/-- The line breaks of a text and its other characters. -/
def units : List Char → List (Option Char)
  | '\r' :: '\n' :: rest => none :: units rest
  | '\n' :: rest => none :: units rest
  | c :: rest => some c :: units rest
  | [] => []

/-- How many line breaks a text has. -/
def lineBreaks (s : String) : Nat := (units s.toList).count none

/-- A unit of an escaped text. -/
def unitHtml (by_ : List Char) : Option Char → List Char
  | none => by_
  | some c => escapeSymbol htmlTable c

lemma escapeSymbol_break {c : Char} (isBreak : c = '\r' ∨ c = '\n') :
    escapeSymbol htmlTable c = [c] := by
  rcases isBreak with rfl | rfl <;> decide

lemma replaceBreaks_cons {by_ rest : List Char} {c : Char} (other : c ≠ '\n')
    (noBreak : c = '\r' → rest.head? ≠ some '\n') :
    replaceBreaks by_ (c :: rest) = c :: replaceBreaks by_ rest := by
  rw [replaceBreaks]
  · rintro r isReturn rfl
    exact noBreak isReturn rfl
  · exact other

/-- A part without line breaks is left as it is. -/
lemma replaceBreaks_append {by_ part : List Char} (whole : ∀ c ∈ part, c ≠ '\r' ∧ c ≠ '\n')
    (rest : List Char) : replaceBreaks by_ (part ++ rest) = part ++ replaceBreaks by_ rest := by
  induction part with
  | nil => rfl
  | cons c part ih =>
    obtain ⟨noReturn, noFeed⟩ := whole c List.mem_cons_self
    rw [List.cons_append, replaceBreaks_cons noFeed fun h => absurd h noReturn,
      ih fun d hd => whole d (List.mem_cons_of_mem c hd), List.cons_append]

lemma code_whole : ∀ e ∈ HTML_ESCAPES, ∀ c ∈ e.2, c ≠ '\r' ∧ c ≠ '\n' := by
  simp [HTML_ESCAPES]

/-- An escaped text begins with a line feed only if the text does. -/
lemma head_escape {s : List Char} (feed : (escape htmlTable s).head? = some '\n') :
    s.head? = some '\n' := by
  cases s with
  | nil => cases feed
  | cons c s =>
    rw [escape, List.flatMap_cons] at feed
    rcases escapeSymbol_cases (T := htmlTable) c with coded | ⟨same, _⟩
    · obtain ⟨rest, code, _⟩ := htmlTable.headed _ coded
      dsimp only at code
      rw [code] at feed
      cases feed
    · rw [same] at feed
      exact feed

/-- Escaping and replacing line breaks act on each unit of a text by itself. -/
lemma replaceBreaks_escape (by_ : List Char) (s : List Char) :
    replaceBreaks by_ (escape htmlTable s) = (units s).flatMap (unitHtml by_) := by
  induction s using units.induct with
  | case1 rest ih =>
    rw [units, List.flatMap_cons, escape, List.flatMap_cons, List.flatMap_cons,
      escapeSymbol_break (.inl rfl), escapeSymbol_break (.inr rfl)]
    exact congrArg (by_ ++ ·) ih
  | case2 rest ih =>
    rw [units, List.flatMap_cons, escape, List.flatMap_cons, escapeSymbol_break (.inr rfl)]
    exact congrArg (by_ ++ ·) ih
  | case3 c rest noPair noFeed ih =>
    rw [units, List.flatMap_cons, escape, List.flatMap_cons, ← escape, ← ih, unitHtml]
    · rcases escapeSymbol_cases (T := htmlTable) c with coded | ⟨same, _⟩
      · exact replaceBreaks_append (code_whole _ coded) _
      · rw [same]
        refine replaceBreaks_cons noFeed fun isReturn feed => ?_
        obtain ⟨r, rfl⟩ := List.head?_eq_some_iff.mp (head_escape feed)
        exact noPair r isReturn rfl
    · exact noPair
    · exact noFeed
  | case4 => rfl

/-- The same without escaping. -/
lemma replaceBreaks_eq (s : List Char) :
    replaceBreaks ['\n'] s = (units s).map (·.getD '\n') := by
  induction s using units.induct with
  | case1 rest ih => rw [replaceBreaks, units, ih]; rfl
  | case2 rest ih => rw [replaceBreaks, units, ih]; rfl
  | case3 c rest noPair noFeed ih =>
    rw [replaceBreaks, units, ih]
    · rfl
    · exact noPair
    · exact noFeed
    · exact noPair
    · exact noFeed
  | case4 => rfl

/-! ## What stands in a slot -/

/-- The tag that a line break becomes, without its angle brackets. -/
def BREAK : List Char := "br /".toList

def unbreak : Piece → List Char
  | .char c => [c]
  | .tag name => if name = BREAK then ['\n'] else tagged name

/-- Turn breaks back into line feeds and decode the entities once. -/
def readBack (slot : List Char) : List Char :=
  unescape htmlTable ((pieces slot).flatMap unbreak)

/-- No markup outside the tags, and each ampersand begins an entity. -/
structure Neutral (slot : List Char) : Prop where
  plain : ∀ c ∈ Markup.text slot, c ∉ ['<', '>', '"', '\'']
  entities : ∀ before after, slot = before ++ '&' :: after →
    ∃ e ∈ HTML_ESCAPES, e.2 <+: '&' :: after

/-- A text whose line breaks have become tags and whose other characters are escaped. -/
def slotOf (us : List (Option Char)) : List Char := us.flatMap (unitHtml (tagged BREAK))

section Slots
variable {us : List (Option Char)}

lemma notMem_escaped (c : Char) : ∀ d ∈ escapeSymbol htmlTable c, d ∉ ['<', '>', '"', '\''] := by
  have absent : ∀ d ∈ ['<', '>', '"', '\''], (∃ e ∈ HTML_ESCAPES, e.1 = d) ∧
      ∀ e ∈ HTML_ESCAPES, d ∉ e.2 := by simp [HTML_ESCAPES]
  intro d hd special
  exact notMem_escapeSymbol (T := htmlTable) (absent d special).1 (absent d special).2 c hd

lemma pieces_unit (u : Option Char) : pieces (unitHtml (tagged BREAK) u) =
    u.elim [.tag BREAK] fun c => (escapeSymbol htmlTable c).map .char := by
  cases u with
  | none => exact pieces_of_tagged (by decide)
  | some c => exact pieces_of_plain fun h => notMem_escaped c _ h (by decide)

lemma closed_unit (u : Option Char) : Closed (unitHtml (tagged BREAK) u) := by
  cases u with
  | none => exact closed_tagged (by decide)
  | some c => exact closed_plain fun h => notMem_escaped c _ h (by decide)

lemma closed_slot (us : List (Option Char)) : Closed (slotOf us) :=
  closed_flatMap fun u _ => closed_unit u

lemma pieces_slot (us : List (Option Char)) : pieces (slotOf us) =
    us.flatMap fun u => u.elim [.tag BREAK] fun c => (escapeSymbol htmlTable c).map .char := by
  rw [slotOf, pieces_flatMap fun u _ => closed_unit u]
  exact List.flatMap_congr fun u _ => pieces_unit u

/-- The only tags of a slot are its line breaks. -/
lemma tags_slot (us : List (Option Char)) :
    tags (slotOf us) = List.replicate (us.count none) BREAK := by
  rw [tags, pieces_slot]
  induction us with
  | nil => rfl
  | cons u us ih =>
    rw [List.flatMap_cons, List.filterMap_append, ih]
    cases u with
    | none => simp [Piece.tag?, List.replicate_succ]
    | some c => simp [Piece.tag?, Function.comp_def]

lemma neutral_slot (us : List (Option Char)) : Neutral (slotOf us) where
  plain := by
    rw [Markup.text, pieces_slot]
    intro d hd
    obtain ⟨piece, inSlot, isChar⟩ := List.mem_filterMap.mp hd
    obtain ⟨u, _, inUnit⟩ := List.mem_flatMap.mp inSlot
    cases u with
    | none =>
      obtain rfl := List.mem_singleton.mp inUnit
      cases isChar
    | some c =>
      obtain ⟨e, he, rfl⟩ := List.mem_map.mp inUnit
      obtain rfl := Option.some.inj isChar
      exact notMem_escaped c e he
  entities before after split := by
    obtain ⟨u, _, front, back, rest, inUnit, rfl⟩ := split_flatMap split
    cases u with
    | none =>
      have mem : '&' ∈ tagged BREAK := by
        rw [show tagged BREAK = front ++ '&' :: back from inUnit]
        exact List.mem_append_right front List.mem_cons_self
      exact absurd mem (by decide)
    | some c =>
      obtain ⟨_, code⟩ := mark_begins_code (T := htmlTable) inUnit
      exact ⟨_, code, rest, rfl⟩

/-- A slot reads back as its text, with every line break as a line feed. -/
lemma readBack_slot (us : List (Option Char)) : readBack (slotOf us) = us.map (·.getD '\n') := by
  have unbroken : (pieces (slotOf us)).flatMap unbreak =
      escape htmlTable (us.map (·.getD '\n')) := by
    rw [pieces_slot, List.flatMap_assoc, escape, List.flatMap_map]
    refine List.flatMap_congr fun u _ => ?_
    cases u with
    | none => exact (escapeSymbol_break (.inr rfl)).symm
    | some c => simp [List.flatMap_map, unbreak]
  rw [readBack, unbroken, unescape_escape]

end Slots

/-! ## The page -/

namespace MailService

/-- The tags of the template up to the message. -/
def TAGS_BEFORE : List (List Char) :=
  ["h2", "/h2", "p", "strong", "/strong", "/p", "p", "strong", "/strong", "/p", "hr /", "p",
    "strong", "/strong", "/p", "p"].map String.toList

def TAGS_AFTER : List (List Char) := ["/p".toList]

lemma escapeHtml_slot (s : String) : (escapeHtml s).toList = slotOf (s.toList.map some) := by
  rw [escapeHtml, String.toList_ofList, slotOf, List.flatMap_map]
  rfl

lemma mensajeHtml_slot (dto : ContactMailDto) :
    (mensajeHtml dto).toList = slotOf (units dto.mensaje.toList) := by
  simp only [mensajeHtml, escapeHtml, String.toList_ofList]
  exact replaceBreaks_escape _ _

lemma tags_template (nombre correo mensaje : List (Option Char)) :
    tags (HEADING.toList ++ (slotOf nombre ++ (CORREO_LABEL.toList ++ (slotOf correo ++
      (MENSAJE_LABEL.toList ++ (slotOf mensaje ++ ENDING.toList)))))) =
      tags HEADING.toList ++ (List.replicate (nombre.count none) BREAK ++
        (tags CORREO_LABEL.toList ++ (List.replicate (correo.count none) BREAK ++
          (tags MENSAJE_LABEL.toList ++ (List.replicate (mensaje.count none) BREAK ++
            tags ENDING.toList))))) := by
  have heading : Closed HEADING.toList := closed_of_outside (by decide +kernel)
  have correoLabel : Closed CORREO_LABEL.toList := closed_of_outside (by decide +kernel)
  have mensajeLabel : Closed MENSAJE_LABEL.toList := closed_of_outside (by decide +kernel)
  rw [heading.tags_append, (closed_slot nombre).tags_append, correoLabel.tags_append,
    (closed_slot correo).tags_append, mensajeLabel.tags_append,
    (closed_slot mensaje).tags_append, tags_slot, tags_slot, tags_slot]

lemma buildContactHtml_slots (dto : ContactMailDto) :
    (buildContactHtml dto).toList =
      HEADING.toList ++ (slotOf ((dto.nombre ++ " " ++ dto.apellido).toList.map some) ++
        (CORREO_LABEL.toList ++ (slotOf (dto.correo.toList.map some) ++
          (MENSAJE_LABEL.toList ++ (slotOf (units dto.mensaje.toList) ++ ENDING.toList))))) := by
  simp only [buildContactHtml, contactTemplate, String.toList_append, List.append_assoc,
    nombreHtml, correoHtml, escapeHtml_slot, mensajeHtml_slot]

lemma readBack_escapeHtml (s : String) : readBack (escapeHtml s).toList = s.toList := by
  rw [escapeHtml_slot, readBack_slot, List.map_map]
  simp [Function.comp_def]

/-- The tags of the page are those of the template and one for each line break of the
message. The page is the template with three texts in their places, each without
markup of its own, from which the name, the address and the message are read back. -/
theorem contactHtml_neutral (dto : ContactMailDto) :
    tags (HEADING ++ CORREO_LABEL ++ MENSAJE_LABEL ++ ENDING).toList = TAGS_BEFORE ++ TAGS_AFTER ∧
    tags (buildContactHtml dto).toList =
      TAGS_BEFORE ++ List.replicate (lineBreaks dto.mensaje) BREAK ++ TAGS_AFTER ∧
    ∃ nombre correo mensaje, buildContactHtml dto =
        HEADING ++ nombre ++ CORREO_LABEL ++ correo ++ MENSAJE_LABEL ++ mensaje ++ ENDING ∧
      (∀ slot ∈ [nombre, correo, mensaje], Neutral slot.toList) ∧
      readBack nombre.toList = (dto.nombre ++ " " ++ dto.apellido).toList ∧
      readBack correo.toList = dto.correo.toList ∧
      readBack mensaje.toList = replaceBreaks ['\n'] dto.mensaje.toList := by
  have unbroken : ∀ cs : List Char, (cs.map some).count none = 0 := fun cs =>
    List.count_eq_zero.mpr (by simp)
  refine ⟨by decide +kernel, ?_, nombreHtml dto, correoHtml dto, mensajeHtml dto, rfl, ?_,
    readBack_escapeHtml _, readBack_escapeHtml _, ?_⟩
  · have fixed : tags HEADING.toList ++ (tags CORREO_LABEL.toList ++ tags MENSAJE_LABEL.toList) =
        TAGS_BEFORE ∧ tags ENDING.toList = TAGS_AFTER := by decide +kernel
    rw [buildContactHtml_slots, tags_template]
    simp only [unbroken, List.replicate_zero, List.nil_append, List.append_assoc, fixed.2,
      ← fixed.1, lineBreaks]
  · simp only [List.forall_mem_cons, List.not_mem_nil, false_imp_iff, implies_true, and_true,
      nombreHtml, correoHtml, escapeHtml_slot, mensajeHtml_slot]
    exact ⟨neutral_slot _, neutral_slot _, neutral_slot _⟩
  · rw [mensajeHtml_slot, readBack_slot, replaceBreaks_eq]

end MailService

end BajaValle
