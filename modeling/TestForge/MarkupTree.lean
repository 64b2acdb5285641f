import TestForge.Markup

/-! The tree that the tokens of a document stand for, elements inside elements. -/
namespace Markup

inductive Node where
  | element (tag : List UInt8) (attributes : Attributes) (children : List Node)
  | character (c : UInt8)

namespace Node

def isElement : Node → Bool
  | .element .. => true
  | .character _ => false

def isBlank : Node → Bool
  | .element .. => false
  | .character c => isSpace c

def tag : Node → List UInt8
  | .element tag .. => tag
  | .character _ => []

def attributes : Node → Attributes
  | .element _ attributes _ => attributes
  | .character _ => []

def children : Node → List Node
  | .element _ _ children => children
  | .character _ => []

def elements (node : Node) : List Node := node.children.filter isElement

@[simp] theorem filter_characters (text : List UInt8) : (text.map Node.character).filter isElement = [] := by
  rw [List.filter_eq_nil_iff]
  intro node member
  obtain ⟨c,_,rfl⟩ := List.mem_map.mp member
  exact Bool.false_ne_true

end Node

/-- The tags and the keys of a node, without its texts and values. -/
inductive Shape where
  | element (tag : List UInt8) (keys : List (List UInt8)) (children : List Shape)

mutual
def Node.shape : Node → List Shape
  | .element tag attributes children => [.element tag (attributes.map (·.1)) (shapes children)]
  | .character _ => []

def shapes : List Node → List Shape
  | [] => []
  | node :: rest => node.shape ++ shapes rest
end

theorem shapes_append (front back : List Node) : shapes (front ++ back) = shapes front ++ shapes back := by
  induction front with
  | nil => rfl
  | cons node front ih => rw [List.cons_append,shapes,shapes,ih,List.append_assoc]

@[simp] theorem shapes_characters (text : List UInt8) : shapes (text.map .character) = [] := by
  induction text with
  | nil => rfl
  | cons c rest ih => rw [List.map_cons,shapes,ih]; rfl

theorem shapes_flatMap {α : Type} (items : List α) (nodes : α → List Node) :
    shapes (items.flatMap nodes) = items.flatMap fun item => shapes (nodes item) := by
  induction items with
  | nil => rfl
  | cons item rest ih => rw [List.flatMap_cons,shapes_append,ih,List.flatMap_cons]

/-- An element whose end tag has not been read yet. -/
structure Frame where
  tag : List UInt8 := []
  attributes : Attributes := []
  children : List Node := []

def Frame.add (frame : Frame) (nodes : List Node) : Frame := { frame with children := frame.children ++ nodes }

/-- The open elements, the innermost first, behind one token. No key stands twice in a tag, and an end tag
closes the element of its own name. -/
def place : List Frame → Token → Option (List Frame)
  | frame :: rest,.character c => some (frame.add [.character c] :: rest)
  | frame :: rest,.start tag attributes closed =>
    if (attributes.map (·.1)).Nodup then
      if closed then some (frame.add [.element tag attributes []] :: rest)
      else some ({ tag, attributes } :: frame :: rest)
    else none
  | top :: below :: rest,.stop tag =>
    if top.tag = tag then some (below.add [.element top.tag top.attributes top.children] :: rest) else none
  | stack,.comment _ => some stack
  | stack,.instruction _ => some stack
  | stack,.declaration _ => some stack
  | _,_ => none

/-- The nodes at the top, every element closed. -/
def forest (tokens : List Token) : Option (List Node) :=
  match tokens.foldlM place [{}] with
  | some [bottom] => some bottom.children
  | _ => none

/-- One element, with nothing around it but white space. -/
def root (nodes : List Node) : Option Node :=
  match nodes.filter (!·.isBlank) with
  | [.element tag attributes children] => some (.element tag attributes children)
  | _ => none

def parse (dialect : Dialect) (text : List UInt8) : Option Node :=
  (dialect.scan text).bind fun tokens => (forest tokens).bind root

/-- Wherever the tokens stand, they are the nodes. -/
def Builds (tokens : List Token) (nodes : List Node) : Prop :=
  ∀ frame rest, tokens.foldlM place (frame :: rest) = some (frame.add nodes :: rest)

/-- The text is read from one place between two tokens to another, and is the nodes. -/
def Spells (dialect : Dialect) (text : List UInt8) (nodes : List Node) : Prop :=
  ∃ tokens, dialect.run .text text = (.text,tokens) ∧ Builds tokens nodes

theorem Frame.add_add (frame : Frame) (first second : List Node) :
    (frame.add first).add second = frame.add (first ++ second) := by
  simp [Frame.add]

theorem builds_nil : Builds [] [] := by
  intro frame rest
  simp [Frame.add]

theorem Builds.append {first second : List Token} {before behind : List Node} (front : Builds first before)
    (back : Builds second behind) : Builds (first ++ second) (before ++ behind) := by
  intro frame rest
  rw [List.foldlM_append,front frame rest]
  exact (back _ rest).trans (by rw [Frame.add_add])

theorem builds_characters (text : List UInt8) : Builds (text.map .character) (text.map .character) := by
  induction text with
  | nil => exact builds_nil
  | cons c rest ih =>
    have one : Builds [.character c] [.character c] := fun _ _ => rfl
    exact one.append ih

variable {dialect : Dialect}

namespace Spells

theorem nil : Spells dialect [] [] := ⟨[],rfl,builds_nil⟩

theorem append {first second : List UInt8} {before behind : List Node} (front : Spells dialect first before)
    (back : Spells dialect second behind) : Spells dialect (first ++ second) (before ++ behind) := by
  obtain ⟨tokens,reads,builds⟩ := front
  obtain ⟨others,onward,more⟩ := back
  exact ⟨tokens ++ others,Dialect.run_trans reads onward,builds.append more⟩

theorem flatMap {α : Type} {items : List α} {text : α → List UInt8} {nodes : α → List Node}
    (each : ∀ item ∈ items, Spells dialect (text item) (nodes item)) :
    Spells dialect (items.flatMap text) (items.flatMap nodes) := by
  induction items with
  | nil => exact nil
  | cons item rest ih =>
    have tail := ih fun other member => each other (List.mem_cons_of_mem _ member)
    exact (each item List.mem_cons_self).append tail

theorem plain {text : List UInt8} (plain : ∀ c ∈ text, Dialect.Plain dialect c) :
    Spells dialect text (text.map .character) :=
  ⟨_,Dialect.run_text_plain plain,builds_characters text⟩

theorem coded {code : UInt8 → List UInt8} {meaning : UInt8 → UInt8}
    (each : ∀ c, dialect.run .text (code c) = (.text,[.character (meaning c)])) (text : List UInt8) :
    Spells dialect (text.flatMap code) ((text.map meaning).map .character) :=
  ⟨_,Dialect.run_text_coded each text,builds_characters _⟩

theorem instruction {text : List UInt8} {written : List UInt8}
    (reads : dialect.run .text text = (.text,[.instruction written])) : Spells dialect text [] :=
  ⟨_,reads,fun frame rest => by simp [place,Frame.add]⟩

theorem single {tag : List UInt8} (named : Dialect.isName tag = true) {written attributes : Attributes}
    (mean : Dialect.AllMean dialect written attributes) (distinct : (attributes.map (·.1)).Nodup) :
    Spells dialect (60 :: tag ++ Dialect.attributesText written ++ [47,62]) [.element tag attributes []] := by
  refine ⟨_,Dialect.run_single named mean,fun frame rest => ?_⟩
  simp [place,distinct]

theorem element {tag : List UInt8} (named : Dialect.isName tag = true) (cooked : dialect.raw tag = false)
    {written attributes : Attributes} (mean : Dialect.AllMean dialect written attributes)
    (distinct : (attributes.map (·.1)).Nodup) {text : List UInt8} {nodes : List Node} (inside : Spells dialect text nodes) :
    Spells dialect (60 :: tag ++ Dialect.attributesText written ++ [62] ++ text ++ (60 :: 47 :: tag ++ [62]))
      [.element tag attributes nodes] := by
  obtain ⟨tokens,reads,builds⟩ := inside
  have opened := Dialect.run_trans (Dialect.run_start named cooked mean) reads
  refine ⟨_,Dialect.run_trans opened (Dialect.run_closing named),fun frame rest => ?_⟩
  have begun : place (frame :: rest) (.start tag attributes false) = some ({ tag, attributes } :: frame :: rest) := by
    simp [place,distinct]
  have filled := builds { tag, attributes } (frame :: rest)
  have ended : place (Frame.add { tag, attributes } nodes :: frame :: rest) (.stop tag) =
      some (frame.add [.element tag attributes nodes] :: rest) := by
    simp [place,Frame.add]
  rw [List.foldlM_append,List.singleton_append,List.foldlM_cons,begun]
  simp only [Option.bind_eq_bind,Option.bind_some,filled,List.foldlM_cons,ended,List.foldlM_nil,pure]

theorem parse_element {text : List UInt8} (front back : List UInt8) {tag : List UInt8} {attributes : Attributes}
    {children : List Node} (blank : (front ++ back).all isSpace = true)
    (spells : Spells dialect text (front.map .character ++ [.element tag attributes children] ++ back.map .character)) :
    parse dialect text = some (.element tag attributes children) := by
  obtain ⟨tokens,reads,builds⟩ := spells
  have whole := builds {} []
  have blankFront : ∀ spaces : List UInt8, spaces.all isSpace = true →
      (spaces.map Node.character).filter (!·.isBlank) = [] := by
    intro spaces known
    rw [List.filter_eq_nil_iff]
    intro node member
    obtain ⟨c,inside,rfl⟩ := List.mem_map.mp member
    simpa [Node.isBlank] using List.all_eq_true.mp known c inside
  rw [List.all_append,Bool.and_eq_true] at blank
  rw [parse,Dialect.scan_of_run reads]
  simp only [Option.bind_some,forest,whole,Frame.add,List.nil_append,root,List.filter_append,blankFront front blank.1,
    blankFront back blank.2,List.append_nil]
  rfl

end Spells
end Markup
