import Mathlib.Data.List.Basic

/-! Markup read byte by byte: tags with their attributes, comments, declarations and instructions, and
the characters between them with their references resolved. Whatever is not well formed is refused. -/
namespace Markup

/-- What differs from one markup language to another. -/
structure Dialect where
  /-- What a reference by name stands for. -/
  entity : List UInt8 → Option (List UInt8)
  /-- The bytes that may stand in text and in values. -/
  permits : UInt8 → Bool
  /-- An attribute may stand without a value. -/
  bare : Bool
  /-- No markup but the end tag is recognised inside the element. -/
  raw : List UInt8 → Bool

abbrev Attributes := List (List UInt8 × List UInt8)

inductive Token where
  | start (tag : List UInt8) (attributes : Attributes) (closed : Bool)
  | stop (tag : List UInt8)
  | character (c : UInt8)
  | comment (text : List UInt8)
  | declaration (text : List UInt8)
  | instruction (text : List UInt8)
  deriving DecidableEq, Repr

/-- A tag with its attributes, a comment, a declaration or an instruction. -/
def Token.isMark : Token → Bool
  | .character _ => false
  | _ => true

/-- Where the reader stands, with what it has read of an unfinished token. -/
inductive Mode where
  | text
  | reference (written : List UInt8)
  | opened
  | declaration (written : List UInt8)
  | instruction (written : List UInt8)
  | closing (tag : List UInt8)
  | naming (tag : List UInt8)
  | between (tag : List UInt8) (attributes : Attributes)
  | keying (tag : List UInt8) (attributes : Attributes) (key : List UInt8)
  | equals (tag : List UInt8) (attributes : Attributes) (key : List UInt8)
  | value (tag : List UInt8) (attributes : Attributes) (key : List UInt8) (quote : UInt8) (written : List UInt8)
  | valueReference (tag : List UInt8) (attributes : Attributes) (key : List UInt8) (quote : UInt8)
      (written name : List UInt8)
  | valued (tag : List UInt8) (attributes : Attributes)
  | slash (tag : List UInt8) (attributes : Attributes)
  | raw (tag pending : List UInt8)
  | broken
  deriving DecidableEq, Repr

def isSpace (c : UInt8) : Bool := c == 32 || c == 9 || c == 10 || c == 13
def isDigit (c : UInt8) : Bool := 48 ≤ c && c ≤ 57
def isLetter (c : UInt8) : Bool := (65 ≤ c && c ≤ 90) || (97 ≤ c && c ≤ 122)
def isNameByte (c : UInt8) : Bool := isLetter c || isDigit c || c == 45 || c == 46 || c == 58 || c == 95

namespace Dialect

variable (dialect : Dialect)

/-- A reference by number is resolved in ASCII and in decimal only. -/
def resolve : List UInt8 → Option (List UInt8)
  | 35 :: digits =>
    let number := digits.foldl (fun number c => 10 * number + (c.toNat - 48)) 0
    if digits.isEmpty || !digits.all isDigit || 128 ≤ number then none
    else if dialect.permits (UInt8.ofNat number) then some [UInt8.ofNat number] else none
  | name => dialect.entity name

/-- Behind the bracket that closes a start tag. -/
def opening (tag : List UInt8) (attributes : Attributes) : Mode × List Token :=
  (if dialect.raw tag then .raw tag [] else .text,[.start tag attributes false])

/-- `--` opens a comment, which only `-->` closes. -/
def closesDeclaration (written : List UInt8) : Bool :=
  if [45,45].isPrefixOf written then 4 ≤ written.length && [45,45].isSuffixOf written else true

def step : Mode → UInt8 → Mode × List Token
  | .text,c =>
    if c = 60 then (.opened,[])
    else if c = 38 then (.reference [],[])
    else if dialect.permits c then (.text,[.character c]) else (.broken,[])
  | .reference written,c =>
    if c = 59 then
      match dialect.resolve written with
      | some resolved => (.text,resolved.map .character)
      | none => (.broken,[])
    else if isNameByte c || c = 35 then (.reference (written ++ [c]),[]) else (.broken,[])
  | .opened,c =>
    if c = 33 then (.declaration [],[])
    else if c = 63 then (.instruction [],[])
    else if c = 47 then (.closing [],[])
    else if isLetter c then (.naming [c],[]) else (.broken,[])
  | .declaration written,c =>
    if c = 62 && closesDeclaration written then
      (.text,[if [45,45].isPrefixOf written then .comment written else .declaration written])
    else if c = 91 && !([45,45].isPrefixOf written) then (.broken,[])
    else (.declaration (written ++ [c]),[])
  | .instruction written,c =>
    if c = 62 && [63].isSuffixOf written then (.text,[.instruction written])
    else (.instruction (written ++ [c]),[])
  | .closing tag,c =>
    if c = 62 && !tag.isEmpty then (.text,[.stop tag])
    else if isNameByte c then (.closing (tag ++ [c]),[]) else (.broken,[])
  | .naming tag,c =>
    if isSpace c then (.between tag [],[])
    else if c = 47 then (.slash tag [],[])
    else if c = 62 then dialect.opening tag []
    else if isNameByte c then (.naming (tag ++ [c]),[]) else (.broken,[])
  | .between tag attributes,c =>
    if isSpace c then (.between tag attributes,[])
    else if c = 47 then (.slash tag attributes,[])
    else if c = 62 then dialect.opening tag attributes
    else if isLetter c then (.keying tag attributes [c],[]) else (.broken,[])
  | .keying tag attributes key,c =>
    if c = 61 then (.equals tag attributes key,[])
    else if isNameByte c then (.keying tag attributes (key ++ [c]),[])
    else if !dialect.bare then (.broken,[])
    else if isSpace c then (.between tag (attributes ++ [(key,[])]),[])
    else if c = 62 then dialect.opening tag (attributes ++ [(key,[])]) else (.broken,[])
  | .equals tag attributes key,c =>
    if c = 34 ∨ c = 39 then (.value tag attributes key c [],[]) else (.broken,[])
  | .value tag attributes key quote written,c =>
    if c = quote then (.valued tag (attributes ++ [(key,written)]),[])
    else if c = 38 then (.valueReference tag attributes key quote written [],[])
    else if c = 60 then (.broken,[])
    else if dialect.permits c then (.value tag attributes key quote (written ++ [c]),[]) else (.broken,[])
  | .valueReference tag attributes key quote written name,c =>
    if c = 59 then
      match dialect.resolve name with
      | some resolved => (.value tag attributes key quote (written ++ resolved),[])
      | none => (.broken,[])
    else if isNameByte c || c = 35 then (.valueReference tag attributes key quote written (name ++ [c]),[])
    else (.broken,[])
  | .valued tag attributes,c =>
    if isSpace c then (.between tag attributes,[])
    else if c = 47 then (.slash tag attributes,[])
    else if c = 62 then dialect.opening tag attributes else (.broken,[])
  | .slash tag attributes,c => if c = 62 then (.text,[.start tag attributes true]) else (.broken,[])
  | .raw tag pending,c =>
    let closing := 60 :: 47 :: tag ++ [62]
    if pending ++ [c] = closing then (.text,[.stop tag])
    else if (pending ++ [c]).isPrefixOf closing then (.raw tag (pending ++ [c]),[])
    else if c = 60 then (.raw tag [c],pending.map .character)
    else (.raw tag [],(pending ++ [c]).map .character)
  | .broken,_ => (.broken,[])

def run : Mode → List UInt8 → Mode × List Token
  | mode,[] => (mode,[])
  | mode,c :: rest =>
    let (next,tokens) := dialect.step mode c
    let (last,behind) := run next rest
    (last,tokens ++ behind)

/-- The tokens of a text that ends between two tokens. -/
def scan (text : List UInt8) : Option (List Token) :=
  match dialect.run .text text with
  | (.text,tokens) => some tokens
  | _ => none

theorem run_cons (mode : Mode) (c : UInt8) (rest : List UInt8) :
    dialect.run mode (c :: rest) = ((dialect.run (dialect.step mode c).1 rest).1,
      (dialect.step mode c).2 ++ (dialect.run (dialect.step mode c).1 rest).2) := rfl

theorem run_append (mode : Mode) (front back : List UInt8) :
    dialect.run mode (front ++ back) = ((dialect.run (dialect.run mode front).1 back).1,
      (dialect.run mode front).2 ++ (dialect.run (dialect.run mode front).1 back).2) := by
  induction front generalizing mode with
  | nil => rfl
  | cons c front ih => rw [List.cons_append,run_cons,ih,run_cons,List.append_assoc]

variable {dialect}

/-- The reader comes from one place to the next, and from there further. -/
theorem run_trans {first middle last : Mode} {front back : List UInt8} {before behind : List Token}
    (reaches : dialect.run first front = (middle,before)) (onward : dialect.run middle back = (last,behind)) :
    dialect.run first (front ++ back) = (last,before ++ behind) := by
  rw [run_append,reaches,onward]

theorem scan_of_run {text : List UInt8} {tokens : List Token} (reads : dialect.run .text text = (.text,tokens)) :
    dialect.scan text = some tokens := by
  rw [scan,reads]

/-! ### Text and values -/

/-- The byte stands for itself. -/
def Plain (dialect : Dialect) (c : UInt8) : Prop := c ≠ 60 ∧ c ≠ 38 ∧ dialect.permits c = true

theorem plain_of_all {text : List UInt8} (all : text.all (fun c => c != 60 && c != 38 && dialect.permits c) = true) :
    ∀ c ∈ text, Plain dialect c := by
  intro c member
  have known := List.all_eq_true.mp all c member
  simp only [Bool.and_eq_true,bne_iff_ne] at known
  exact ⟨known.1.1,known.1.2,known.2⟩

theorem step_text_plain {c : UInt8} (plain : Plain dialect c) : dialect.step .text c = (.text,[.character c]) := by
  rw [step,if_neg plain.1,if_neg plain.2.1,if_pos plain.2.2]

theorem run_text_plain {text : List UInt8} (plain : ∀ c ∈ text, Plain dialect c) :
    dialect.run .text text = (.text,text.map .character) := by
  induction text with
  | nil => rfl
  | cons c rest ih =>
    rw [run_cons,step_text_plain (plain c List.mem_cons_self)]
    dsimp only
    rw [ih fun other member => plain other (List.mem_cons_of_mem _ member)]
    rfl

/-- What a code puts for a byte is read as one character. -/
theorem run_text_coded {code : UInt8 → List UInt8} {meaning : UInt8 → UInt8}
    (each : ∀ c, dialect.run .text (code c) = (.text,[.character (meaning c)])) (text : List UInt8) :
    dialect.run .text (text.flatMap code) = (.text,(text.map meaning).map .character) := by
  induction text with
  | nil => rfl
  | cons c rest ih =>
    rw [List.flatMap_cons]
    exact run_trans (each c) ih

/-- The bytes of a code stay inside the quotes. -/
theorem run_value_coded {code : UInt8 → List UInt8} {meaning : UInt8 → UInt8}
    (each : ∀ tag attributes key written c, dialect.run (.value tag attributes key 34 written) (code c) =
      (.value tag attributes key 34 (written ++ [meaning c]),[]))
    (tag : List UInt8) (attributes : Attributes) (key written text : List UInt8) :
    dialect.run (.value tag attributes key 34 written) (text.flatMap code) =
      (.value tag attributes key 34 (written ++ text.map meaning),[]) := by
  induction text generalizing written with
  | nil => rw [List.map_nil,List.append_nil]; rfl
  | cons c rest ih =>
    rw [List.flatMap_cons,List.map_cons,List.append_cons]
    exact run_trans (each tag attributes key written c) (ih _)

/-- A mode that keeps what it has read keeps a whole word. -/
theorem run_grows (mode : List UInt8 → Mode) {keeps : UInt8 → Prop}
    (grows : ∀ read c, keeps c → dialect.step (mode read) c = (mode (read ++ [c]),[])) {word : List UInt8}
    (kept : ∀ c ∈ word, keeps c) (read : List UInt8) : dialect.run (mode read) word = (mode (read ++ word),[]) := by
  induction word generalizing read with
  | nil => rw [List.append_nil]; rfl
  | cons c rest ih =>
    rw [run_cons,grows read c (kept c List.mem_cons_self)]
    dsimp only
    rw [ih (fun other member => kept other (List.mem_cons_of_mem _ member)),List.append_assoc]
    rfl

/-- The coded text is read as the value of an attribute. -/
def Means (dialect : Dialect) (coded value : List UInt8) : Prop := ∀ tag attributes key,
  dialect.run (.value tag attributes key 34 []) coded = (.value tag attributes key 34 value,[])

theorem means_plain {text : List UInt8} (plain : ∀ c ∈ text, Plain dialect c ∧ c ≠ 34) : Means dialect text text := by
  intro tag attributes key
  refine run_grows (.value tag attributes key 34) (fun read c known => ?_) plain []
  obtain ⟨⟨noTag,noReference,permitted⟩,unquoted⟩ := known
  rw [step,if_neg unquoted,if_neg noReference,if_neg noTag,if_pos permitted]

/-- Inside a raw element nothing ends before the next tag could begin. -/
theorem run_raw {text : List UInt8} (quiet : ∀ c ∈ text, c ≠ 60) (tag : List UInt8) :
    dialect.run (.raw tag []) text = (.raw tag [],text.map .character) := by
  induction text with
  | nil => rfl
  | cons c rest ih =>
    have here := quiet c List.mem_cons_self
    have other : ¬[] ++ [c] = 60 :: 47 :: tag ++ [62] := by simp
    have apart : ¬([] ++ [c]).isPrefixOf (60 :: 47 :: tag ++ [62]) = true := by simp [List.isPrefixOf,here]
    have taken : dialect.step (.raw tag []) c = (.raw tag [],[.character c]) := by
      rw [step,if_neg other,if_neg apart,if_neg here]
      rfl
    rw [run_cons,taken]
    dsimp only
    rw [ih fun other member => quiet other (List.mem_cons_of_mem _ member)]
    rfl

/-! ### Tags -/

/-- A tag or a key: a letter and then what a name may hold. -/
def isName : List UInt8 → Bool
  | [] => false
  | first :: rest => isLetter first && rest.all isNameByte

theorem isName_iff {name : List UInt8} : isName name = true ↔
    ∃ first rest, name = first :: rest ∧ isLetter first = true ∧ ∀ c ∈ rest, isNameByte c = true := by
  cases name with
  | nil => simp [isName]
  | cons first rest => simp [isName]

theorem nameByte_apart {c : UInt8} (named : isNameByte c = true) :
    isSpace c = false ∧ c ≠ 47 ∧ c ≠ 62 ∧ c ≠ 61 := by
  refine ⟨?_,?_,?_,?_⟩
  · by_contra space
    simp only [Bool.not_eq_false,isSpace,Bool.or_eq_true,beq_iff_eq] at space
    rcases space with ((rfl | rfl) | rfl) | rfl <;> cases named
  all_goals
    rintro rfl
    cases named

theorem letter_apart {c : UInt8} (letter : isLetter c = true) :
    isNameByte c = true ∧ c ≠ 33 ∧ c ≠ 63 := by
  refine ⟨by simp [isNameByte,letter],?_,?_⟩ <;>
  · rintro rfl
    cases letter

theorem run_naming {tag : List UInt8} (named : isName tag = true) : dialect.run .opened tag = (.naming tag,[]) := by
  obtain ⟨first,rest,rfl,letter,bytes⟩ := isName_iff.mp named
  obtain ⟨byte,noDeclaration,noInstruction⟩ := letter_apart letter
  have opened : dialect.step .opened first = (.naming [first],[]) := by
    rw [step,if_neg noDeclaration,if_neg noInstruction,if_neg (nameByte_apart byte).2.1,if_pos letter]
  rw [run_cons,opened]
  dsimp only
  rw [run_grows .naming (fun read c known => ?_) bytes [first]]
  · rfl
  · obtain ⟨visible,noSlash,inside,_⟩ := nameByte_apart known
    rw [step,if_neg (by simp [visible]),if_neg noSlash,if_neg inside,if_pos known]

theorem run_closing {tag : List UInt8} (named : isName tag = true) :
    dialect.run .text (60 :: 47 :: tag ++ [62]) = (.text,[.stop tag]) := by
  obtain ⟨first,rest,rfl,letter,bytes⟩ := isName_iff.mp named
  have all : ∀ c ∈ first :: rest, isNameByte c = true := by
    intro c member
    rcases List.mem_cons.mp member with rfl | member
    · exact (letter_apart letter).1
    · exact bytes c member
  have word : dialect.run (.closing []) (first :: rest) = (.closing (first :: rest),[]) := by
    refine run_grows .closing (fun read c known => ?_) all []
    have inside : ¬(decide (c = 62) && !read.isEmpty) = true := by simp [(nameByte_apart known).2.2.1]
    rw [step,if_neg inside,if_pos known]
  have begins : dialect.run .text [60,47] = (.closing [],[]) := rfl
  exact run_trans begins (run_trans word rfl)

/-- A list of attributes as it stands in a tag, with coded values. -/
def attributesText (attributes : Attributes) : List UInt8 :=
  attributes.flatMap fun one => 32 :: one.1 ++ 61 :: 34 :: one.2 ++ [34]

theorem attributesText_cons (one : List UInt8 × List UInt8) (rest : Attributes) :
    attributesText (one :: rest) = 32 :: one.1 ++ 61 :: 34 :: one.2 ++ [34] ++ attributesText rest := rfl

/-- The attributes with coded values are read as the others. -/
def AllMean (dialect : Dialect) (coded attributes : Attributes) : Prop :=
  List.Forall₂ (fun one other => one.1 = other.1 ∧ isName other.1 = true ∧ Means dialect one.2 other.2) coded attributes

theorem run_attribute {key coded value : List UInt8} (named : isName key = true) (means : Means dialect coded value)
    (tag : List UInt8) (attributes : Attributes) :
    dialect.run (.between tag attributes) (key ++ 61 :: 34 :: coded ++ [34]) =
      (.valued tag (attributes ++ [(key,value)]),[]) := by
  obtain ⟨first,rest,rfl,letter,bytes⟩ := isName_iff.mp named
  obtain ⟨visible,noSlash,inside,_⟩ := nameByte_apart (letter_apart letter).1
  have begins : dialect.step (.between tag attributes) first = (.keying tag attributes [first],[]) := by
    rw [step,if_neg (by simp [visible]),if_neg noSlash,if_neg inside,if_pos letter]
  have word : dialect.run (.between tag attributes) (first :: rest) = (.keying tag attributes (first :: rest),[]) := by
    rw [run_cons,begins]
    dsimp only
    rw [run_grows (.keying tag attributes) (fun read c known => ?_) bytes [first]]
    · rfl
    · rw [step,if_neg (nameByte_apart known).2.2.2,if_pos known]
  have quoted : dialect.run (.keying tag attributes (first :: rest)) [61,34] =
      (.value tag attributes (first :: rest) 34 [],[]) := rfl
  have last : dialect.run (.value tag attributes (first :: rest) 34 value) [34] =
      (.valued tag (attributes ++ [(first :: rest,value)]),[]) := rfl
  have whole := run_trans word (run_trans quoted (run_trans (means tag attributes (first :: rest)) last))
  simpa only [List.append_assoc,List.cons_append,List.nil_append] using whole

/-- In the name of a tag, or behind one of its values. -/
theorem run_attributes {coded attributes : Attributes} (mean : AllMean dialect coded attributes) (tag : List UInt8) :
    ∀ known : Attributes, dialect.run (.valued tag known) (attributesText coded) = (.valued tag (known ++ attributes),[]) := by
  induction mean with
  | nil =>
    intro known
    rw [List.append_nil]
    rfl
  | @cons one other coded attributes head _ ih =>
    intro known
    obtain ⟨same,named,means⟩ := head
    have first := run_attribute named means tag known
    rw [← same] at first
    have spaced : dialect.run (.valued tag known) (32 :: one.1 ++ 61 :: 34 :: one.2 ++ [34]) =
        (.valued tag (known ++ [(one.1,other.2)]),[]) := first
    have whole := run_trans spaced (ih _)
    rw [attributesText_cons,show other = (one.1,other.2) from Prod.ext same.symm rfl]
    simpa only [List.append_assoc,List.cons_append,List.nil_append] using whole

/-- Behind the name of the tag the reader goes on as behind a value. -/
theorem run_tag {tag : List UInt8} (named : isName tag = true) {coded attributes : Attributes}
    (mean : AllMean dialect coded attributes) {ending : List UInt8} {last : Mode} {tokens : List Token}
    (ends : dialect.run (.naming tag) ending = dialect.run (.valued tag []) ending)
    (reads : dialect.run (.valued tag attributes) ending = (last,tokens)) :
    dialect.run .text (60 :: tag ++ attributesText coded ++ ending) = (last,tokens) := by
  have opened : dialect.run .text (60 :: tag) = (.naming tag,[]) := run_naming named
  have whole : dialect.run (.naming tag) (attributesText coded ++ ending) = (last,tokens) := by
    cases mean with
    | nil => exact ends.trans reads
    | cons head tail =>
      exact run_trans (run_attributes (.cons head tail) tag []) reads
  exact List.append_assoc .. ▸ run_trans opened whole

theorem run_start {tag : List UInt8} (named : isName tag = true) (cooked : dialect.raw tag = false)
    {coded attributes : Attributes} (mean : AllMean dialect coded attributes) :
    dialect.run .text (60 :: tag ++ attributesText coded ++ [62]) = (.text,[.start tag attributes false]) := by
  refine run_tag named mean rfl ?_
  have closes : dialect.step (.valued tag attributes) 62 = dialect.opening tag attributes := rfl
  rw [run_cons,closes,opening,if_neg (by simp [cooked])]
  rfl

theorem run_single {tag : List UInt8} (named : isName tag = true) {coded attributes : Attributes}
    (mean : AllMean dialect coded attributes) :
    dialect.run .text (60 :: tag ++ attributesText coded ++ [47,62]) = (.text,[.start tag attributes true]) :=
  run_tag named mean rfl rfl

end Dialect
end Markup
