import Mathlib.Data.List.Infix

/-! MIME detection of uploads and the size and type check of a stored object. The names
inside a ZIP archive come from `zipNames`, which stands for the `zipfile` module. -/

namespace Doci

abbrev Bytes := List UInt8

inductive Mime where
  | pdf | png | jpeg | gif | webp | bmp | tiff
  | docx | xlsx | pptx
  | txt | markdown | csv
  deriving DecidableEq, Repr

def ascii (s : String) : Bytes := s.toList.map fun c => c.toNat.toUInt8

def startsWith (magic : Bytes) (h : Bytes) : Bool := magic.isPrefixOf h

def matchWebp (h : Bytes) : Bool :=
  12 ≤ h.length && h.take 4 == ascii "RIFF" && (h.drop 8).take 4 == ascii "WEBP"

/-- `_MAGIC`, in the order in which it is searched. -/
def magicTable : List (Mime × (Bytes → Bool)) :=
  [(.pdf, startsWith (ascii "%PDF")),
    (.png, startsWith ([0x89] ++ ascii "PNG" ++ [0x0d, 0x0a, 0x1a, 0x0a])),
    (.jpeg, startsWith [0xff, 0xd8, 0xff]),
    (.gif, startsWith (ascii "GIF87a")),
    (.gif, startsWith (ascii "GIF89a")),
    (.webp, matchWebp),
    (.bmp, startsWith (ascii "BM")),
    (.tiff, startsWith (ascii "II*" ++ [0x00])),
    (.tiff, startsWith (ascii "MM" ++ [0x00] ++ ascii "*"))]

def headerLen : Nat := 12

def zipMagic : Bytes := ascii "PK" ++ [0x03, 0x04]

def netscapeMarker : Bytes := [0x21, 0xff, 0x0b] ++ ascii "NETSCAPE2.0"

def containsBytes (part data : Bytes) : Bool := data.tails.any part.isPrefixOf

/-- `_BAD_CTRL`: control bytes other than TAB, LF and CR, and DEL. -/
def badCtrl (b : UInt8) : Bool := (b < 0x20 && b != 0x09 && b != 0x0a && b != 0x0d) || b == 0x7f

def isGif87a (header : Bytes) : Bool := startsWith (ascii "GIF87a") header

/-- Where a strict UTF-8 decoder stands: between characters, or before `more + 1`
continuation bytes of which the next lies in `[lo, hi]`. -/
inductive Utf8State where
  | start
  | tail (more : Nat) (lo hi : UInt8)
  deriving DecidableEq

def utf8Step : Utf8State → UInt8 → Option Utf8State
  | .start, b =>
    if b < 0x80 then some .start
    else if 0xc2 ≤ b && b ≤ 0xdf then some (.tail 0 0x80 0xbf)
    else if b = 0xe0 then some (.tail 1 0xa0 0xbf)
    else if b = 0xed then some (.tail 1 0x80 0x9f)
    else if 0xe1 ≤ b && b ≤ 0xef then some (.tail 1 0x80 0xbf)
    else if b = 0xf0 then some (.tail 2 0x90 0xbf)
    else if 0xf1 ≤ b && b ≤ 0xf3 then some (.tail 2 0x80 0xbf)
    else if b = 0xf4 then some (.tail 2 0x80 0x8f)
    else none
  | .tail more lo hi, b =>
    if lo ≤ b && b ≤ hi then
      match more with
      | 0 => some .start
      | more + 1 => some (.tail more 0x80 0xbf)
    else none

def decodesUtf8 (data : Bytes) : Bool := data.foldlM utf8Step .start == some .start

def pathName (path : List Char) : List Char :=
  (((path.splitOn '/').filter fun part => part != [] && part != ['.']).getLast?.getD [])

/-- `PurePosixPath(name).suffix.lower()`, as far as it can name an ASCII extension. -/
def lowerSuffix (filename : String) : String :=
  let name := (pathName filename.toList).dropWhile (· == '.')
  match (name.reverse.takeWhile (· != '.')).reverse with
  | ext => if name.contains '.' then
      String.ofList ('.' :: ext.map fun c => if c = '\u212a' then 'k' else c.toLower) else ""

def textByExt (ext : String) : Mime :=
  if ext = ".md" || ext = ".markdown" then .markdown else if ext = ".csv" then .csv else .txt

def classifyText (data : Bytes) (filename : Option String) : Option Mime :=
  if data.any badCtrl then none
  else if decodesUtf8 data then some (textByExt (lowerSuffix (filename.getD "")))
  else none

/-- What `ZipFile` raises: `BadZipFile`, or else a member name that does not decode, a version that
is not supported and the like. -/
inductive ZipError where
  | badZipFile
  | other (text : String)

abbrev ZipNames := Bytes → Except ZipError (List String)

section Detect

variable (zipNames : ZipNames)

/-- Only `BadZipFile` is caught. -/
def classifyOoxml (data : Bytes) : Except String (Option Mime) :=
  match zipNames data with
  | .error .badZipFile => .ok none
  | .error (.other text) => .error text
  | .ok names =>
    .ok (if names.any fun n => "word/".toList.isPrefixOf n.toList then some .docx
      else if names.any fun n => "xl/".toList.isPrefixOf n.toList then some .xlsx
      else if names.any fun n => "ppt/".toList.isPrefixOf n.toList then some .pptx
      else none)

/-- `detect_mime`, or the text of what it raises. -/
def detectMime (data : Bytes) (filename : Option String) : Except String (Option Mime) :=
  let header := data.take headerLen
  match magicTable.find? fun entry => entry.2 header with
  | some (mime, _) => .ok (some mime)
  | none =>
    if startsWith zipMagic header then classifyOoxml zipNames data
    else .ok (classifyText data filename)

/-- The chunk loop of `validate_object`: the buffer, unless it reached the cap. -/
def readCapped (maxSize : Nat) : List Bytes → Bytes → Option Bytes
  | [], buf => some buf
  | chunk :: chunks, buf =>
    let buf := buf ++ chunk
    if maxSize ≤ buf.length then none else readCapped maxSize chunks buf

/-- `raised` is what `detect_mime` raises. -/
inductive Refusal where
  | tooLarge
  | unsupportedType
  | raised (text : String)
  deriving DecidableEq

/-- `validate_object` on the chunks of the stored object. -/
def validateObject (maxSize : Nat) (chunks : List Bytes) (name : Option String) :
    Except Refusal (Mime × Nat) :=
  match readCapped maxSize chunks [] with
  | none => .error .tooLarge
  | some data =>
    match detectMime zipNames data name with
    | .error text => .error (.raised text)
    | .ok none => .error .unsupportedType
    | .ok (some mime) =>
      if mime = .gif && !isGif87a (data.take headerLen) && containsBytes netscapeMarker data then
        .error .unsupportedType
      else .ok (mime, data.length)

end Detect

end Doci
