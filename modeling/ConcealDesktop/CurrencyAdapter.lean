import ConcealDesktop.Text

/-! Amounts and addresses as CurrencyAdapter reads and writes them. The number of decimal
places belongs to the currency of the wallet core, so it is a parameter throughout. -/
namespace ConcealDesktop.CurrencyAdapter

/-- The backwards loop of formatAmount that removes zeros past the second fraction digit. -/
def removeTrailingZeros (dotPos : ℕ) : ℕ → QString → QString
  | 0, result => result
  | pos + 1, result =>
    if dotPos + 1 < pos + 1 ∧ result[pos + 1]? = some (qchar '0') then
      removeTrailingZeros dotPos pos (result.eraseIdx (pos + 1))
    else result

def insertComma (pos : ℕ) (result : QString) : QString :=
  if result[pos - 1]?.any QChar.isDigit then result.insertIdx pos (qchar ',') else result

/-- The grouping loop of formatAmount: it runs while the position is positive, in steps of 3. -/
def groupThousands : ℕ → QString → QString
  | 0, result => result
  | 1, result => insertComma 1 result
  | 2, result => insertComma 2 result
  | pos + 3, result => groupThousands pos (insertComma (pos + 3) result)

def formatAmount (places : ℕ) (amount : UInt64) : QString :=
  let digits := QString.number amount.toNat
  let padded := if digits.length < places + 1 then
    digits.rightJustified (places + 1) (qchar '0') else digits
  let dotPos := padded.length - places
  let trimmed := removeTrailingZeros dotPos (padded.length - 1) padded
  groupThousands (dotPos - 3) (trimmed.insertIdx dotPos (qchar '.'))

/-- The loop of parseAmount that drops zeros while there are more fraction digits than places.
It returns the number of fraction digits that are left. -/
def dropExcessZeros (places : ℕ) : ℕ → QString → ℕ × QString
  | 0, s => (0, s)
  | fractionSize + 1, s =>
    if places < fractionSize + 1 ∧ s.endsWith (qchar '0') then
      dropExcessZeros places fractionSize s.dropLast
    else (fractionSize + 1, s)

/-- The end of parseAmount: an empty text is zero, any other is padded and converted. -/
def padAndConvert (places fractionSize : ℕ) (s : QString) : UInt64 :=
  if s = [] then 0
  else (s ++ List.replicate (places - fractionSize) (qchar '0')).toULongLong

def parseAmount (places : ℕ) (amountString : QString) : UInt64 :=
  let s := amountString.trimmed.remove (qchar ',')
  match s.indexOf (qchar '.') with
  | none => padAndConvert places 0 s
  | some pointIndex =>
    let (fractionSize, s) := dropExcessZeros places (s.length - pointIndex - 1) s
    if places < fractionSize then 0
    else padAndConvert places fractionSize (s.eraseIdx pointIndex)

/-- An alias is any text with a point after its first character. -/
def isValidOpenAliasAddress (address : StdString) : Bool :=
  match address.findIdx? (· == 0x2e) with
  | some dot => decide (0 < dot)
  | none => false

/-- Reads the address out of a DNS record. The output argument keeps its value when the record
is refused, and also when the address is not followed by a semicolon. -/
def processServerAliasResponse (s address : StdString) : Bool × StdString :=
  match s.find (bytes "oa1:ccx") 0 with
  | none => (false, address)
  | some oa =>
    match s.find (bytes "recipient_address=") oa with
    | none => (false, address)
    | some key =>
      let pos := key + 18
      match s.find (bytes ";") pos with
      | none => (true, address)
      | some pos2 =>
        if pos2 - pos = 98 then
          match s.substr pos 98 with
          | some found => (true, found)
          | none => (false, address)
        else (false, address)

example : parseAmount 6 (qstr " 1,234.50 ") = 1234500000 := by decide

example : formatAmount 6 1234567890000 = qstr "1,234,567.89" := by decide

end ConcealDesktop.CurrencyAdapter
