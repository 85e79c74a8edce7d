import LanguageServer.Uri

/-!
# The grammar of references

Which texts the editor protocol takes for names: the references of the generic URI syntax, absolute
or relative, with the strict rules for escapes, authorities and addresses.

* `isReference`: the grammar;
* `Uri.isValid`: whether a name may be sent to the editor.
-/

namespace LanguageServer.Uri

/-- Delimiters that may stand in every part. -/
def isSubDelim (c : Char) : Bool := "!$&'()*+,;=".toList.contains c

/-- The characters of a path segment. -/
def isPathChar (c : Char) : Bool :=
  Percent.isUnreserved c || isSubDelim c || c == ':' || c == '@'

/-- Whether every character is of a class or belongs to a complete escape. -/
def allCoded (p : Char → Bool) : List Char → Bool
  | [] => true
  | '%' :: a :: b :: rest =>
    (Text.hexValue? a).isSome && (Text.hexValue? b).isSome && allCoded p rest
  | c :: rest => p c && allCoded p rest

/-- One to four digits of base sixteen. -/
def isHexGroup (cs : List Char) : Bool :=
  1 ≤ cs.length && cs.length ≤ 4 && cs.all fun c => (Text.hexValue? c).isSome

/-- A number up to 255 without leading zeros. -/
def isOctet (cs : List Char) : Bool :=
  match cs with
  | [a] => a.isDigit
  | [a, b] => a.isDigit && b.isDigit && a != '0'
  | [a, b, c] =>
    a.isDigit && b.isDigit && c.isDigit && a != '0' &&
      cs.foldl (fun n d => 10 * n + (d.toNat - 0x30)) 0 ≤ 255
  | _ => false

/-- Four octets with points between them. -/
def isIpv4 (cs : List Char) : Bool :=
  let octets := cs.splitOn '.'
  octets.length == 4 && octets.all isOctet

/-- How many groups of 16 bits a sequence of groups stands for, if it is one; the last group may be
an address of four octets where `mayEndInOctets` says so. -/
def groupCount (mayEndInOctets : Bool) : List (List Char) → Option Nat
  | [] => some 0
  | [g] => if isHexGroup g then some 1 else if mayEndInOctets && isIpv4 g then some 2 else none
  | g :: gs => if isHexGroup g then (groupCount mayEndInOctets gs).map (· + 1) else none

/-- The groups of a part of an address; an empty part has none. -/
def groupsOf (cs : List Char) : List (List Char) := if cs.isEmpty then [] else cs.splitOn ':'

/-- The text before and after the first double colon. -/
def splitElision? : List Char → Option (List Char × List Char)
  | ':' :: ':' :: rest => some ([], rest)
  | c :: rest => (splitElision? rest).map fun (a, b) => (c :: a, b)
  | [] => none

/-- An address of eight groups, or of fewer with a double colon in the place of the others. -/
def isIpv6 (cs : List Char) : Bool :=
  match splitElision? cs with
  | none => groupCount true (groupsOf cs) == some 8
  | some (a, b) =>
    match groupCount false (groupsOf a), groupCount true (groupsOf b) with
    | some m, some n => m + n ≤ 7
    | _, _ => false

/-- A place on the network: an address in brackets or a name, and then perhaps a colon and digits. -/
def isNetworkPlace : List Char → Bool
  | '[' :: rest =>
    let address := rest.takeWhile (· != ']')
    isIpv6 address &&
      match rest.drop address.length with
      | [']'] => true
      | ']' :: ':' :: digits => digits.all Char.isDigit
      | _ => false
  | cs =>
    let host := cs.takeWhile (· != ':')
    allCoded (fun c => Percent.isUnreserved c || isSubDelim c) host &&
      match cs.drop host.length with
      | ':' :: digits => digits.all Char.isDigit
      | _ => true

/-- An authority: perhaps a user and `@`, and a place on the network. -/
def isAuthority (cs : List Char) : Bool :=
  let user := cs.takeWhile (· != '@')
  match cs.drop user.length with
  | '@' :: rest =>
    allCoded (fun c => Percent.isUnreserved c || isSubDelim c || c == ':') user && isNetworkPlace rest
  | _ => isNetworkPlace cs

/-- What comes before the query: perhaps an authority, and a path. -/
def isHierarchy : List Char → Bool
  | '/' :: '/' :: rest =>
    let authority := rest.takeWhile (· != '/')
    isAuthority authority && allCoded (fun c => isPathChar c || c == '/') (rest.drop authority.length)
  | cs => allCoded (fun c => isPathChar c || c == '/') cs

/-- A query or a fragment. -/
def isExtra (cs : List Char) : Bool := allCoded (fun c => isPathChar c || c == '/' || c == '?') cs

/-- What comes before the query: perhaps a scheme, and the rest. A colon in the first segment has to
end a scheme. -/
def isAddress (cs : List Char) : Bool :=
  let first := cs.takeWhile fun c => c != ':' && c != '/'
  match cs.drop first.length with
  | ':' :: rest =>
    (match first with
      | c :: more => c.isAlpha && more.all isSchemeChar
      | [] => false) && isHierarchy rest
  | _ => isHierarchy cs

/-- A URI reference. -/
def isReference (cs : List Char) : Bool :=
  let beforeFragment := cs.takeWhile (· != '#')
  let beforeQuery := beforeFragment.takeWhile (· != '?')
  isAddress beforeQuery && isExtra ((beforeFragment.drop beforeQuery.length).drop 1) &&
    isExtra ((cs.drop beforeFragment.length).drop 1)

/-- Whether a name may be sent to the editor. -/
def isValid (u : Uri) : Bool := isReference u.text.toList

end LanguageServer.Uri
