import PhpArray.Yaml.Builder

/-!
Which token may follow which. What is still to come is a stack of expectations. The first one is
offered the next token: it takes the token and says what it expects now, or it is content without it
and passes it to the one below. An expectation builds what it recognises.
-/

namespace PhpArray.Yaml

/-- Where a node stands, which decides what it may be. -/
inductive Place where
  | block
  /-- A key or a value of a block mapping, where a sequence need not be indented. -/
  | inMapping
  | flow
deriving DecidableEq, Repr

/-- What is expected. The mark is the start of the collection that is being read. -/
inductive Expectation where
  | stream
  | document
  | directive (start : Mark) (versioned : Bool) (handles : List (String × String))
  | root
  | documentEnd
  | afterAnchor (place : Place) (name : String) (start : Mark)
  | afterTag (place : Place) (tag : TagText) (start : Mark)
  | afterProperties (place : Place) (properties : Properties)
  | blockEntry (start : Mark)
  | blockItem (start : Mark)
  | indentlessEntry
  | indentlessItem
  | blockPair (start : Mark)
  | blockKey (start : Mark)
  | blockColon (start : Mark)
  | blockValue (start : Mark)
  | flowComma (start : Mark)
  | flowItem (start : Mark)
  | pairKey (start : Mark)
  | pairColon (start : Mark)
  | pairValue (start : Mark)
  | pairEnd (start : Mark)
  | mappingComma (start : Mark)
  | mappingItem (start : Mark)
  | mappingKey (start : Mark)
  | mappingColon (start : Mark)
  | mappingValue (start : Mark)
  | missingValue (start : Mark)

inductive Reply where
  /-- The token is taken; these are expected in place of the one that took it. -/
  | took (next : List Expectation)
  | passed

namespace Grammar

/-- Refuses a token inside something that began at a mark. -/
def unexpected {α : Type} (context : Option Context) (start : Option Mark)
    (wanted : WantedToken) (t : Token) : Build α :=
  throw (.report ⟨context, start, .unexpectedToken wanted t.kind, t.start⟩)

/-- The full tag of a node, with the handle replaced. -/
def fullTag (tag : TagText) (tagMark start : Mark) : Build String := do
  match tag.handle with
  | none => return tag.suffix
  | some handle =>
    match (← get).handles.lookup handle with
    | some replacement => return replacement ++ tag.suffix
    | none => throw (.report ⟨some .node, some start, .undefinedHandle handle, tagMark⟩)

/-- Takes the token that begins the content of a node, if it does. -/
def content? (place : Place) (properties : Properties) (t : Token) :
    Build (Option (List Expectation)) := do
  match t.kind, place with
  | .scalar value plain, _ =>
    Build.scalar properties value plain
    return some []
  | .flowSequenceStart, _ =>
    Build.beginCollection properties false
    return some [.flowItem t.start]
  | .flowMappingStart, _ =>
    Build.beginCollection properties true
    return some [.mappingItem t.start]
  | .blockEntry, .inMapping =>
    Build.beginCollection properties false
    return some [.indentlessItem]
  | _, .flow => return none
  | .blockSequenceStart, _ =>
    Build.beginCollection properties false
    return some [.blockEntry t.start]
  | .blockMappingStart, _ =>
    Build.beginCollection properties true
    return some [.blockPair t.start]
  | _, _ => return none

/-- Takes the first token of a node. -/
def node (place : Place) (t : Token) : Build (List Expectation) := do
  match t.kind with
  | .alias name =>
    Build.attachAlias name t.start
    return []
  | .anchor name => return [.afterAnchor place name t.start]
  | .tag tag => return [.afterTag place tag t.start]
  | _ =>
    match ← content? place ⟨none, none, t.start⟩ t with
    | some next => return next
    | none =>
      let context := if place = .flow then .flowNode else .blockNode
      unexpected (some context) (some t.start) .content t

/-- Offers a token to a node that has properties; without content it is an empty scalar. -/
def contentOrEmpty (place : Place) (properties : Properties) (t : Token) : Build Reply := do
  match ← content? place properties t with
  | some next => return .took next
  | none =>
    Build.scalar properties "" true
    return .passed

/-- Offers a token to a node that some tokens show to be missing. The rest of its collection follows
it. -/
def nodeUnless (missing : TokenKind → Bool) (place : Place) (next : Expectation)
    (offerNext : Token → Build Reply) (t : Token) : Build Reply := do
  if missing t.kind then
    Build.missing t.start
    offerNext t
  else return .took ((← node place t) ++ [next])

def blockEntry (start : Mark) (t : Token) : Build Reply := do
  match t.kind with
  | .blockEntry => return .took [.blockItem start]
  | .blockEnd =>
    Build.endCollection
    return .took []
  | _ => unexpected (some .blockCollection) (some start) .blockEnd t

def indentlessEntry (t : Token) : Build Reply := do
  match t.kind with
  | .blockEntry => return .took [.indentlessItem]
  | _ =>
    Build.endCollection
    return .passed

def blockPair (start : Mark) (t : Token) : Build Reply := do
  match t.kind with
  | .key => return .took [.blockKey start]
  | .blockEnd =>
    Build.endCollection
    return .took []
  | _ => unexpected (some .blockMapping) (some start) .blockEnd t

def blockColon (start : Mark) (t : Token) : Build Reply := do
  match t.kind with
  | .value => return .took [.blockValue start]
  | _ =>
    Build.missing t.start
    blockPair start t

def flowComma (start : Mark) (t : Token) : Build Reply := do
  match t.kind with
  | .flowEntry => return .took [.flowItem start]
  | .flowSequenceEnd =>
    Build.endCollection
    return .took []
  | _ => unexpected (some .flowSequence) (some start) .commaOrBracket t

def flowItem (start : Mark) (t : Token) : Build Reply := do
  match t.kind with
  | .flowSequenceEnd =>
    Build.endCollection
    return .took []
  | .key =>
    Build.beginCollection ⟨none, none, t.start⟩ true
    return .took [.pairKey start]
  | _ => return .took ((← node .flow t) ++ [.flowComma start])

def pairEnd (start : Mark) (t : Token) : Build Reply := do
  Build.endCollection
  flowComma start t

def pairColon (start : Mark) (t : Token) : Build Reply := do
  match t.kind with
  | .value => return .took [.pairValue start]
  | _ =>
    Build.missing t.start
    pairEnd start t

def mappingComma (start : Mark) (t : Token) : Build Reply := do
  match t.kind with
  | .flowEntry => return .took [.mappingItem start]
  | .flowMappingEnd =>
    Build.endCollection
    return .took []
  | _ => unexpected (some .flowMapping) (some start) .commaOrBrace t

def mappingItem (start : Mark) (t : Token) : Build Reply := do
  match t.kind with
  | .flowMappingEnd =>
    Build.endCollection
    return .took []
  | .key => return .took [.mappingKey start]
  | _ => return .took ((← node .flow t) ++ [.missingValue start])

def missingValue (start : Mark) (t : Token) : Build Reply := do
  Build.missing t.start
  mappingComma start t

def mappingColon (start : Mark) (t : Token) : Build Reply := do
  match t.kind with
  | .value => return .took [.mappingValue start]
  | _ => missingValue start t

/-- Reads a directive of a document that begins at a mark. -/
def directive (start : Mark) (versioned : Bool) (handles : List (String × String))
    (t : Token) : Build Reply := do
  match t.kind with
  | .directive (.version major _) =>
    if versioned then throw (.report ⟨none, none, .duplicateVersion, t.start⟩)
    if major ≠ 1 then throw (.report ⟨none, none, .incompatibleVersion, t.start⟩)
    return .took [.directive start true handles]
  | .directive (.tagHandle handle replacement) =>
    if (handles.lookup handle).isSome then
      throw (.report ⟨none, none, .duplicateHandle handle, t.start⟩)
    return .took [.directive start versioned ((handle, replacement) :: handles)]
  | .directive (.other _) => return .took [.directive start versioned handles]
  | .documentStart =>
    Build.beginDocument handles start
    return .took [.root]
  | _ => unexpected none none .documentStart t

def document (t : Token) : Build Reply := do
  match t.kind with
  | .documentEnd => return .took [.document]
  | .streamEnd => return .took []
  | _ => directive t.start false [] t

def documentEnd (t : Token) : Build Reply := do
  match t.kind with
  | .documentEnd => return .took [.document]
  | _ => document t

/-- The first document need not be marked. -/
def stream (t : Token) : Build Reply := do
  match t.kind with
  | .directive _ | .documentStart | .streamEnd => document t
  | _ =>
    Build.beginDocument [] t.start
    return .took ((← node .block t) ++ [.documentEnd])

def endsDocument : TokenKind → Bool
  | .directive _ | .documentStart | .documentEnd | .streamEnd => true
  | _ => false

def endsBlockItem : TokenKind → Bool
  | .blockEntry | .blockEnd => true
  | _ => false

def endsIndentlessItem : TokenKind → Bool
  | .blockEntry | .key | .value | .blockEnd => true
  | _ => false

def endsBlockPair : TokenKind → Bool
  | .key | .value | .blockEnd => true
  | _ => false

def endsPairValue : TokenKind → Bool
  | .flowEntry | .flowSequenceEnd => true
  | _ => false

def endsPairKey (kind : TokenKind) : Bool :=
  kind == .value || endsPairValue kind

def endsMappingValue : TokenKind → Bool
  | .flowEntry | .flowMappingEnd => true
  | _ => false

def endsMappingKey (kind : TokenKind) : Bool :=
  kind == .value || endsMappingValue kind

/-- Offers a token to an expectation. -/
def offer (t : Token) : Expectation → Build Reply
  | .stream => stream t
  | .document => document t
  | .directive start versioned handles => directive start versioned handles t
  | .root => nodeUnless endsDocument .block .documentEnd documentEnd t
  | .documentEnd => documentEnd t
  | .afterAnchor place name start => do
    match t.kind with
    | .tag tag =>
      let tag ← fullTag tag t.start start
      return .took [.afterProperties place ⟨some name, some tag, start⟩]
    | _ => contentOrEmpty place ⟨some name, none, start⟩ t
  | .afterTag place tag start => do
    let tag ← fullTag tag start start
    match t.kind with
    | .anchor name => return .took [.afterProperties place ⟨some name, some tag, start⟩]
    | _ => contentOrEmpty place ⟨none, some tag, start⟩ t
  | .afterProperties place properties => contentOrEmpty place properties t
  | .blockEntry start => blockEntry start t
  | .blockItem start => nodeUnless endsBlockItem .block (.blockEntry start) (blockEntry start) t
  | .indentlessEntry => indentlessEntry t
  | .indentlessItem => nodeUnless endsIndentlessItem .block .indentlessEntry indentlessEntry t
  | .blockPair start => blockPair start t
  | .blockKey start => nodeUnless endsBlockPair .inMapping (.blockColon start) (blockColon start) t
  | .blockColon start => blockColon start t
  | .blockValue start => nodeUnless endsBlockPair .inMapping (.blockPair start) (blockPair start) t
  | .flowComma start => flowComma start t
  | .flowItem start => flowItem start t
  | .pairKey start => nodeUnless endsPairKey .flow (.pairColon start) (pairColon start) t
  | .pairColon start => pairColon start t
  | .pairValue start => nodeUnless endsPairValue .flow (.pairEnd start) (pairEnd start) t
  | .pairEnd start => pairEnd start t
  | .mappingComma start => mappingComma start t
  | .mappingItem start => mappingItem start t
  | .mappingKey start =>
    nodeUnless endsMappingKey .flow (.mappingColon start) (mappingColon start) t
  | .mappingColon start => mappingColon start t
  | .mappingValue start =>
    nodeUnless endsMappingValue .flow (.mappingComma start) (mappingComma start) t
  | .missingValue start => missingValue start t

/-- Offers a token down the stack until it is taken. -/
def accept (t : Token) : List Expectation → Build (List Expectation)
  | [] => return []
  | e :: below => do
    match ← offer t e with
    | .took next => return next ++ below
    | .passed => accept t below

def acceptAll (tokens : List Token) (stack : List Expectation) : Build (List Expectation) :=
  tokens.foldlM (fun stack t => accept t stack) stack

end Grammar

end PhpArray.Yaml
