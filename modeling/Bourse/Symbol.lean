import Bourse.Text.Blank
import Bourse.Text.Quoted

/-!
# Symbols and markets

A symbol names a pair of assets, `BASE/QUOTE`: buyers pay the quote asset and receive the base
asset, sellers the reverse. Asset codes are upper-case ASCII letters and digits. Reading a symbol
ignores case and blanks at the ends, so a symbol has one form. A market is a symbol traded as one
product; its orders never meet those of another market.
-/

namespace Bourse

/-- An ASCII capital or digit. -/
def isCodeChar (c : Char) : Bool :=
  ('A' ≤ c && c ≤ 'Z') || ('0' ≤ c && c ≤ '9')

/-- One or more ASCII capitals and digits. -/
def isCode (cs : List Char) : Bool :=
  !cs.isEmpty && cs.all isCodeChar

/-- An ASCII small letter as a capital, any other character as it is. -/
def capital (c : Char) : Char :=
  if 'a' ≤ c ∧ c ≤ 'z' then Char.ofNat (c.toNat - 32) else c

/-- A pair of assets, one of which is traded for the other. -/
structure Symbol where
  /-- The asset that is bought and sold. -/
  base : String
  /-- The asset in which prices are given. -/
  quote : String
  /-- The base asset has a code. -/
  base_code : isCode base.toList = true
  /-- The quote asset has a code. -/
  quote_code : isCode quote.toList = true
  deriving DecidableEq

/-- A text that is no symbol. -/
structure SymbolError where
  text : String
  deriving DecidableEq

def SymbolError.message (e : SymbolError) : String :=
  "invalid symbol " ++ Text.quoted e.text ++ ": expected BASE/QUOTE"

namespace Symbol

/-- The symbol of two asset codes in capitals. -/
def ofCodes? (base quote : List Char) : Option Symbol :=
  if h : isCode (String.ofList base).toList = true ∧ isCode (String.ofList quote).toList = true then
    some ⟨String.ofList base, String.ofList quote, h.1, h.2⟩
  else none

/-- Reads two codes with a slash between them. -/
def ofChars? (cs : List Char) : Option Symbol :=
  match cs.span (· != '/') with
  | (_, []) => none
  | (base, _ :: quote) => ofCodes? (base.map capital) (quote.map capital)

/-- Reads a symbol in any case, with blanks at its ends. -/
def parse (s : String) : Except SymbolError Symbol :=
  match ofChars? (Text.trim s.toList) with
  | some symbol => .ok symbol
  | none => .error ⟨s⟩

/-- The two codes with a slash between them. -/
def toText (s : Symbol) : String :=
  s.base ++ "/" ++ s.quote

end Symbol

/-- The products as which a symbol is traded. -/
inductive TradingType where
  | spot
  | futures
  deriving DecidableEq

def TradingType.name : TradingType → String
  | .spot => "Spot"
  | .futures => "Futures"

def TradingType.names : List (String × TradingType) :=
  [("Spot", .spot), ("Futures", .futures)]

/-- A symbol traded as one product. -/
structure Market where
  symbol : Symbol
  tradingType : TradingType
  deriving DecidableEq

namespace Market

/-- The symbol and the product with a colon between them. -/
def toText (m : Market) : String :=
  m.symbol.toText ++ ":" ++ m.tradingType.name

/-- The place of a product among those of one symbol. -/
def productRank : TradingType → Nat
  | .spot => 0
  | .futures => 1

/-- The order of markets: by base, then by quote, then by product. -/
def cmp (a b : Market) : Ordering :=
  (compare a.symbol.base b.symbol.base).then
    ((compare a.symbol.quote b.symbol.quote).then
      (compare (productRank a.tradingType) (productRank b.tradingType)))

/-- Whether `a` stands before `b` or at the same place. -/
def le (a b : Market) : Bool :=
  cmp a b != .gt

/-- Markets in ascending order. -/
def sort (markets : List Market) : List Market :=
  markets.mergeSort le

end Market

end Bourse
