import TableMachines.Catalog.Machine

namespace TableMachines

namespace Catalog

def finite (rules : List (UInt32 × Option Char × UInt32)) : Table (FiniteRule UInt32 Char) :=
  rules.map fun (source, trigger, target) => ⟨source, trigger, target⟩

def pushdown (rules : List (UInt32 × Option Char × UInt32 × Char × List Char)) :
    Table (PushdownRule UInt32 Char) :=
  rules.map fun (source, trigger, target, pop, push) => ⟨source, trigger, target, pop, push⟩

def turing (rules : List (UInt32 × Char × UInt32 × Char × Direction)) :
    Table (TuringRule UInt32 Char) :=
  rules.map fun (source, scanned, target, write, direction) =>
    ⟨source, scanned, target, write, direction⟩

def containsAb : Dfa UInt32 Char where
  start := 1
  accept := {3}
  rules := finite
    [(1, some 'a', 2), (1, some 'b', 1), (2, some 'a', 2), (2, some 'b', 3), (3, some 'a', 3),
      (3, some 'b', 3)]

def thirdFromLastB : Nfa UInt32 Char where
  start := 1
  accept := {4}
  rules := finite
    [(1, some 'a', 1), (2, some 'a', 3), (3, some 'a', 4), (1, some 'b', 1), (1, some 'b', 2),
      (2, some 'b', 3), (3, some 'b', 4)]

def multipleOfTwoOrThree : Nfa UInt32 Char where
  start := 1
  accept := .ofList [2, 4]
  rules := finite
    [(1, none, 2), (1, none, 4), (2, some 'a', 3), (3, some 'a', 2), (4, some 'a', 5),
      (5, some 'a', 6), (6, some 'a', 4)]

def abNfa : Nfa UInt32 Char where
  start := 1
  accept := {3}
  rules := finite
    [(1, some 'a', 1), (1, some 'a', 2), (1, none, 2), (2, some 'b', 3), (3, some 'b', 1),
      (3, none, 2)]

def balancedParentheses : Dpda UInt32 Char where
  start := 1
  bottom := '$'
  accept := {1}
  rules := pushdown
    [(1, some '(', 2, '$', ['b', '$']), (2, some '(', 2, 'b', ['b', 'b']), (2, some ')', 2, 'b', []),
      (2, none, 1, '$', ['$'])]

def equalAsAndBs : Dpda UInt32 Char where
  start := 1
  bottom := '$'
  accept := {1}
  rules := pushdown
    [(1, some 'a', 2, '$', ['a', '$']), (1, some 'b', 2, '$', ['b', '$']),
      (2, some 'a', 2, 'a', ['a', 'a']), (2, some 'b', 2, 'b', ['b', 'b']),
      (2, some 'a', 2, 'b', []), (2, some 'b', 2, 'a', []), (2, none, 1, '$', ['$'])]

def markedPalindrome : Dpda UInt32 Char where
  start := 1
  bottom := '$'
  accept := {3}
  rules := pushdown
    [(1, some 'a', 1, '$', ['a', '$']), (1, some 'a', 1, 'a', ['a', 'a']),
      (1, some 'a', 1, 'b', ['a', 'b']), (1, some 'b', 1, '$', ['b', '$']),
      (1, some 'b', 1, 'a', ['b', 'a']), (1, some 'b', 1, 'b', ['b', 'b']),
      (1, some 'm', 2, '$', ['$']), (1, some 'm', 2, 'a', ['a']), (1, some 'm', 2, 'b', ['b']),
      (2, some 'a', 2, 'a', []), (2, some 'b', 2, 'b', []), (2, none, 3, '$', ['$'])]

def evenPalindrome : Npda UInt32 Char where
  start := 1
  bottom := '$'
  accept := {3}
  rules := pushdown
    [(1, some 'a', 1, '$', ['a', '$']), (1, some 'a', 1, 'a', ['a', 'a']),
      (1, some 'a', 1, 'b', ['a', 'b']), (1, some 'b', 1, '$', ['b', '$']),
      (1, some 'b', 1, 'a', ['b', 'a']), (1, some 'b', 1, 'b', ['b', 'b']),
      (1, none, 2, '$', ['$']), (1, none, 2, 'a', ['a']), (1, none, 2, 'b', ['b']),
      (2, some 'a', 2, 'a', []), (2, some 'b', 2, 'b', []), (2, none, 3, '$', ['$'])]

/-- If, else, while, do-nothing, number, boolean and variable by their initials, the others as they
stand. -/
def tokens : List Char :=
  ['i', 'e', 'w', 'd', '(', ')', '\x7b', '\x7d', ';', '=', '+', '*', '<', 'n', 'b', 'v']

def productions : List (Char × List Char) :=
  [('S', ['W']), ('S', ['A']), ('W', ['w', '(', 'E', ')', '\x7b', 'S', '\x7d']),
    ('A', ['v', '=', 'E']), ('E', ['L']), ('L', ['M', '<', 'L']), ('L', ['M']),
    ('M', ['T', '*', 'M']), ('M', ['T']), ('T', ['n']), ('T', ['v'])]

def simpleParser : Npda UInt32 Char where
  start := 1
  bottom := '$'
  accept := {3}
  rules :=
    pushdown [(1, none, 2, '$', ['S', '$']), (2, none, 3, '$', ['$'])] ++
    productions.map (fun (head, body) => ⟨2, none, 2, head, body⟩) ++
    tokens.map fun token => ⟨2, some token, 2, token, []⟩

def binaryIncrement : Dtm UInt32 Char where
  start := 1
  accept := {3}
  rules := turing
    [(1, '0', 2, '1', .right), (1, '1', 1, '0', .left), (1, '_', 2, '1', .right),
      (2, '0', 2, '0', .right), (2, '1', 2, '1', .right), (2, '_', 3, '_', .left)]

def equalAbc : Dtm UInt32 Char where
  start := 1
  accept := {6}
  rules := turing
    [(1, 'X', 1, 'X', .right), (1, 'a', 2, 'X', .right), (1, '_', 6, '_', .left),
      (2, 'a', 2, 'a', .right), (2, 'X', 2, 'X', .right), (2, 'b', 3, 'X', .right),
      (3, 'b', 3, 'b', .right), (3, 'X', 3, 'X', .right), (3, 'c', 4, 'X', .right),
      (4, 'c', 4, 'c', .right), (4, '_', 5, '_', .left),
      (5, 'a', 5, 'a', .left), (5, 'b', 5, 'b', .left), (5, 'c', 5, 'c', .left),
      (5, 'X', 5, 'X', .left), (5, '_', 1, '_', .right)]

end Catalog

def catalog : List NamedMachine :=
  [⟨"contains-ab", "Strings over \x7ba, b\x7d containing the substring ab",
      .dfa Catalog.containsAb⟩,
    ⟨"third-from-last-b", "Strings over \x7ba, b\x7d whose third character from the end is b",
      .nfa Catalog.thirdFromLastB⟩,
    ⟨"multiple-of-two-or-three", "Runs of a whose length is a multiple of two or three",
      .nfa Catalog.multipleOfTwoOrThree⟩,
    ⟨"ab-nfa", "NFA with free moves over \x7ba, b\x7d, accepting in state 3",
      .nfa Catalog.abNfa⟩,
    ⟨"ab-dfa", "Subset construction of ab-nfa",
      .subsetDfa Catalog.abNfa.determinize⟩,
    ⟨"balanced-parentheses", "Balanced strings of ( and )",
      .dpda Catalog.balancedParentheses⟩,
    ⟨"equal-as-and-bs", "Strings with as many a as b",
      .dpda Catalog.equalAsAndBs⟩,
    ⟨"marked-palindrome", "Palindromes over \x7ba, b\x7d with an m marking the middle",
      .dpda Catalog.markedPalindrome⟩,
    ⟨"even-palindrome", "Even-length palindromes over \x7ba, b\x7d",
      .npda Catalog.evenPalindrome⟩,
    ⟨"simple-parser", "Token strings of the while/assign language, e.g. w(v<n)\x7bv=v*n\x7d",
      .npda Catalog.simpleParser⟩,
    ⟨"binary-increment", "Adds one to a binary number, head starting on the last digit",
      .dtm Catalog.binaryIncrement .last⟩,
    ⟨"equal-abc", "Strings of the form a^n b^n c^n",
      .dtm Catalog.equalAbc .first⟩]

namespace Catalog

def names : List String :=
  catalog.map NamedMachine.name

def lookup (name : String) : Except Fault NamedMachine :=
  match catalog.find? (·.name == name) with
  | some entry => .ok entry
  | none => .error (.unknownMachine name)

end Catalog

end TableMachines
