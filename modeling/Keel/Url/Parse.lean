-- SUMMARY: URLs: kl_url_parse and kl_url_resolve on the bytes of a C string.
import Keel.Message.Framing

/-!
# URLs

`kl_url_parse` splits a URL into scheme, authority and path, and `kl_url_resolve` makes an
absolute URL of a Location value. Strings are the bytes before the terminating zero.
-/

open Message

structure KlUrl where
  isHttps : Bool := false
  isWs : Bool := false
  isUnix : Bool := false
  host : List UInt8 := []
  port : Nat := 0
  path : List UInt8 := []
  unixPath : List UInt8 := []
deriving DecidableEq, Repr

def KL_URL_MAX : Nat := 2048
def KL_URL_UNIX_PATH_MAX : Nat := 108

namespace Url

def strcasecmp (a b : List UInt8) : Bool := a.map lower == b.map lower

def schemeIs (url pre : List UInt8) : Bool := strcasecmp (url.take pre.length) pre

variable (s : List UInt8)

def hasCrlf : Bool := s.any fun c => c == 13 || c == 10

def hasSpaceOrCtl : Bool := s.any fun c => c ≤ 32 || c == 127

/-- The bytes up to the fragment. -/
def withoutFragment : List UInt8 := s.takeWhile (· ≠ 35)

def hexVal (c : UInt8) : Option UInt8 :=
  if 48 ≤ c ∧ c ≤ 57 then some (c - 48)
  else if 97 ≤ c ∧ c ≤ 102 then some (c - 97 + 10)
  else if 65 ≤ c ∧ c ≤ 70 then some (c - 65 + 10)
  else none

/-- One decoded byte; the buffer keeps room for the terminating zero. -/
def pctPush (out : List UInt8) (c : UInt8) : Option (List UInt8) :=
  if c = 0 then none else if KL_URL_UNIX_PATH_MAX ≤ out.length + 1 then none else some (out ++ [c])

def pctDecode : List UInt8 → List UInt8 → Option (List UInt8)
  | [], out => some out
  | c :: src, out =>
    if c = 37 then
      match src with
      | a :: b :: rest =>
        match hexVal a, hexVal b with
        | some hi, some lo => (pctPush out (hi * 16 + lo)).bind (pctDecode rest)
        | _, _ => none
      | _ => none
    else (pctPush out c).bind (pctDecode src)

/-- The path after the authority. -/
def urlPath (rest : List UInt8) (out : KlUrl) : Option KlUrl :=
  if hasSpaceOrCtl rest then none
  else
    match rest with
    | [] => some { out with path := [47] }
    | c :: _ =>
      if c = 47 then some { out with path := withoutFragment rest }
      else if c = 35 then some { out with path := [47] }
      else none

/-- The schemes in the order in which they are tried. -/
def schemes : List (List UInt8 × KlUrl) :=
  [(ascii "https+unix://", { isHttps := true, isUnix := true }),
    (ascii "http+unix://", { isUnix := true }),
    (ascii "https://", { isHttps := true }), (ascii "http://", {}),
    (ascii "wss+unix://", { isHttps := true, isWs := true, isUnix := true }),
    (ascii "ws+unix://", { isWs := true, isUnix := true }),
      (ascii "wss://", { isHttps := true, isWs := true }),
    (ascii "ws://", { isWs := true })]

def endsAuthority (c : UInt8) : Bool := c == 47 || c == 63 || c == 35

/-- The bytes allowed in brackets; `zone` is set behind a percent sign. -/
def bracketOk : Bool → List UInt8 → Bool
  | _, [] => true
  | zone, c :: s =>
    if c = 37 then bracketOk true s
    else
      ((hexVal c).isSome || c == 58 || c == 46 ||
        zone && ((97 ≤ c && c ≤ 122) || (65 ≤ c && c ≤
          90) || c == 45 || c == 95 || c == 126)) && bracketOk zone s

/-- The host and what follows it. -/
def hostOf (url : List UInt8) : Option (List UInt8 × List UInt8) :=
  let authority := url.takeWhile fun c => !endsAuthority c
  if 64 ∈ authority then none
  else if url.head? = some 91 then
    let inner := authority.tail.takeWhile (· ≠ 93)
    -- the bracket must close inside the authority
    if inner.length + 1 < authority.length ∧ bracketOk false inner then
      some (inner, url.drop (inner.length + 2))
    else none
  else
    let host := url.takeWhile fun c => !(c == 58 || endsAuthority c)
    some (host, url.drop host.length)

def decimal : Nat := s.foldl (fun v c => v * 10 + (c.toNat - 48)) 0

def isDigit (c : UInt8) : Bool := 48 ≤ c && c ≤ 57

/-- The port and what follows it. -/
def portOf (isHttps : Bool) (rest : List UInt8) : Option (Nat × List UInt8) :=
  match rest with
  | c :: s =>
    if c = 58 then
      let span := s.takeWhile isDigit
      if span = [] ∨ 65535 < decimal span ∨ decimal span = 0 then none
      else some (decimal span, s.drop span.length)
    else some (if isHttps then 443 else 80, rest)
  | [] => some (if isHttps then 443 else 80, [])

def urlParse (url : List UInt8) : Option KlUrl :=
  match schemes.find? fun x => schemeIs url x.1 with
  | none => none
  | some (scheme, out) =>
    let url := url.drop scheme.length
    if out.isUnix then
      let auth := url.takeWhile fun c => !endsAuthority c
      if auth = [] then none
      else
        match pctDecode auth [] with
        | none => none
        | some path =>
          if hasCrlf path then none
          else urlPath (url.drop auth.length) { out with unixPath := path }
    else
      match hostOf url with
      | none => none
      | some (host, rest) =>
        if host = [] ∨ hasSpaceOrCtl host then none
        else
          match portOf out.isHttps rest with
          | none => none
          | some (port, rest) => urlPath rest { out with host, port }

/-- A result that fits the buffer with its terminating zero. -/
def fits (outSize : Nat) (s : List UInt8) : Option (List UInt8) :=
  if outSize ≤ s.length then none else some s

/-- The bytes before `://` and those after it. -/
def splitScheme : List UInt8 → Option (List UInt8 × List UInt8)
  | [] => none
  | c :: s =>
    if (c :: s).take 3 = ascii "://" then some ([], s.drop 2)
    else (splitScheme s).map fun x => (c :: x.1, x.2)

def urlResolve (base location : List UInt8) (outSize : Nat) : Option (List UInt8) :=
  if location = [] then none
  else if schemeIs location (ascii "http://") || schemeIs location (ascii "https://") then
    fits outSize (withoutFragment location)
  else if location.take 2 = [47, 47] then
    if 58 ∈ base then
      let scheme := base.takeWhile (· ≠ 58)
      if 5 ≤ scheme.length ∧ strcasecmp (scheme.drop (scheme.length - 5)) (ascii "+unix") then none
      else fits outSize (scheme ++ 58 :: withoutFragment location)
    else none
  else if location.head? = some 47 then
    match splitScheme base with
    | none => none
    | some (scheme, rest) =>
      fits outSize (scheme ++ ascii "://" ++ rest.takeWhile (fun c => !endsAuthority c) ++
        withoutFragment location)
  else none

example : (urlParse (ascii "HTTPS://[::1]:8443/a?b#c")).map (fun u => (u.host, u.port, u.path)) =
    some (ascii "::1", 8443, ascii "/a?b") := by decide
example : urlResolve (ascii "http://a:8080/x?y") (ascii "/z#f") KL_URL_MAX =
  some (ascii "http://a:8080/z") := by decide

end Url
