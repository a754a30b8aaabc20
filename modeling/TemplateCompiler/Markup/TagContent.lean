import TemplateCompiler.Markup.Attributes
import TemplateCompiler.Markup.Fault
import TemplateCompiler.Markup.Tag
import TemplateCompiler.Text.Blank
import TemplateCompiler.Text.Bytes

namespace TemplateCompiler.Markup

/-- Whether a character goes on with an attribute name. -/
def isAttributeNameRest (c : Char) : Bool :=
  c != '=' && !Text.isTagSpace c

/-- Reads the value behind an `=`: up to the closing quote, or to the next space. `size` is the byte
    length of the whole tag content, at which faults are placed. -/
def readValue (size : Nat) (cs : List Char) : Except Fault (List Char × List Char) :=
  match cs.dropWhile Text.isTagSpace with
  | [] => .error (.valueMissing size)
  | c :: rest =>
    if isQuote c then
      match Text.splitOnce [c] rest with
      | some (value, behind) => .ok (value, behind)
      | none => .error (.quoteMissing size c)
    else
      .ok ((c :: rest).takeWhile (!Text.isTagSpace ·), (c :: rest).dropWhile (!Text.isTagSpace ·))

theorem length_readValue {size : Nat} {cs value behind : List Char}
    (h : readValue size cs = .ok (value, behind)) : behind.length ≤ cs.length := by
  have hle := (List.dropWhile_suffix Text.isTagSpace (l := cs)).length_le
  rw [readValue] at h
  split at h
  · cases h
  · rename_i c rest hspace
    rw [hspace] at hle
    split at h
    · split at h
      · rename_i value' behind' hcut
        cases h
        have hlength := Text.length_behind_splitOnce hcut
        simp at hle
        omega
      · cases h
    · cases h
      have hle' := (List.dropWhile_suffix (!Text.isTagSpace ·) (l := c :: rest)).length_le
      omega

/-- Reads the attributes of a tag. The first character of a name may be any but a space, even `=`; a
    name without `=` has an empty value. -/
def readAttributes (size : Nat) (cs : List Char) : Except Fault (List Attribute) :=
  match _hstart : cs.dropWhile Text.isTagSpace with
  | [] => .ok []
  | c :: rest =>
    let name := String.ofList (c :: rest.takeWhile isAttributeNameRest)
    match _hname : (rest.dropWhile isAttributeNameRest).dropWhile Text.isTagSpace with
    | '=' :: assigned =>
      match _hvalue : readValue size assigned with
      | .error fault => .error fault
      | .ok (value, behind) =>
        (readAttributes size behind).map ((name, String.ofList value) :: ·)
    | behind => (readAttributes size behind).map ((name, "") :: ·)
termination_by cs.length
decreasing_by
  · have hstart := (List.dropWhile_suffix Text.isTagSpace (l := cs)).length_le
    have hname := (List.dropWhile_suffix isAttributeNameRest (l := rest)).length_le
    have hspace := (List.dropWhile_suffix Text.isTagSpace
      (l := rest.dropWhile isAttributeNameRest)).length_le
    have hvalue := length_readValue _hvalue
    rw [_hname] at hspace
    rw [_hstart] at hstart
    simp at hstart hspace
    omega
  · have hstart := (List.dropWhile_suffix Text.isTagSpace (l := cs)).length_le
    have hname := (List.dropWhile_suffix isAttributeNameRest (l := rest)).length_le
    have hspace := (List.dropWhile_suffix Text.isTagSpace
      (l := rest.dropWhile isAttributeNameRest)).length_le
    rw [_hname] at hspace
    rw [_hstart] at hstart
    simp at hstart
    omega

/-- A start tag: its name, its attributes, and whether a slash before the `>` closes it at once. -/
structure StartTag where
  name : String
  attributes : Attributes
  selfClosing : Bool
deriving DecidableEq, Repr

/-- Reads what stands between `<` and `>` in a start tag. -/
def StartTag.read (content : List Char) : Except Fault StartTag :=
  let selfClosing := content.getLast? == some '/'
  let inner := if selfClosing then content.dropLast else content
  let name := inner.takeWhile (!Text.isTagSpace ·)
  (readAttributes (Text.byteLength inner) (inner.drop name.length)).map fun entries =>
    { name := String.ofList name
      attributes := Attributes.ofList entries
      selfClosing := selfClosing }

/-- The name in an end tag, from what stands between `</` and `>`: spaces behind it are cut, unless
    there is nothing else. -/
def endTagName (content : List Char) : String :=
  let name := (content.reverse.dropWhile Text.isTagSpace).reverse
  String.ofList (if name = [] then content else name)

end TemplateCompiler.Markup
