import LambdaIOT.Httpd.Handlers

/-!
# `Files_ReadOneFileInfo` over any folder

`Handlers.lean` has the function over the fake files that `WEB_firstdir` and `WEB_readdir` give
in this build. Here it is the same function over any folder: a folder is the list of entries the
two would give, and what the context keeps from one call to the next is a `Listing`.
-/

namespace Httpd

open CMem

/-- What `WEB_firstdir` and `WEB_readdir` tell of an entry. -/
structure DirEntry where
  isFolder : Int
  name : Bytes
  size : Int
  date : Int
  deriving DecidableEq

/-- `_dwOperStage`, `_dwTotal`, and what `WEB_readdir` has still to give for `_fp`; a handle
that is null gives nothing. -/
structure Listing where
  stage : Nat
  total : Int
  unread : List DirEntry
  deriving DecidableEq

/-- A response that starts. -/
def Listing.start : Listing := ⟨0, 0, []⟩

/-- A call: the state behind it, its result, the bytes stored from `buffer` on. -/
structure ListingCall where
  state : Listing
  size : Int
  out : Bytes
  deriving DecidableEq

def listingHead : Bytes := ascii "\x7b\"result\":1, \"data\":["

/-- The object of an entry; `date` is printed as a `long`. -/
def entryObject (e : DirEntry) : Bytes :=
  ascii "\x7b\"folder\":" ++ decimal e.isFolder ++
    ascii ",\"name\":\"" ++ e.name ++ ascii "\"" ++
    ascii ",\"size\":" ++ decimal e.size ++
    ascii ",\"date\":" ++ decimal (wrapLong e.date) ++ ascii "\x7d"

/-- What is put out for an entry when `total` were put out before. -/
def entryText (total : Int) (e : DirEntry) : Bytes :=
  (if total = 0 then listingHead else ascii ",") ++ entryObject e

/-- A call that ends because there is no room. -/
def listingPause (s : Listing) (out : Bytes) : ListingCall :=
  ⟨s, if out = [] then -1 else out.length, if out = [] then [] else out ++ [0]⟩

/-- The rounds of the loop; each reads an entry, and the one that finds none closes the folder. -/
def listingLoop (responsePath : Bytes) (maxSize : Int) :
    List DirEntry → Nat → Int → Bytes → ListingCall
  | [], stage, total, out =>
    if (out.length : Int) < maxSize - 200 then
      let text := out ++ ascii "]\x7d"
      ⟨⟨stageEnd, total, []⟩, text.length, text ++ [0]⟩
    else listingPause ⟨stage, total, []⟩ out
  | e :: unread, stage, total, out =>
    if (out.length : Int) < maxSize - 200 then
      if filesListed responsePath e.name then
        listingLoop responsePath maxSize unread (stage + 1) (total + 1) (out ++ entryText total e)
      else listingLoop responsePath maxSize unread (stage + 1) total out
    else listingPause ⟨stage, total, e :: unread⟩ out

/-- What is put out for a folder that `WEB_firstdir` cannot open. -/
def emptyListing : Bytes := ascii "\x7b\"result\":0, \"data\":[]\x7d"

/-- `Files_ReadOneFileInfo(context, buffer, maxSize)`. The round that opens the folder treats
the first entry as the others treat theirs. -/
def readOneFileInfo (responsePath : Bytes) (folder : List DirEntry) (s : Listing)
    (maxSize : Int) : ListingCall :=
  if s.stage = stageEnd then ⟨{ s with unread := [] }, -1, []⟩
  else if s.stage = 0 then
    if 0 < maxSize - 200 then
      if folder = [] then
        ⟨⟨stageEnd, s.total, []⟩, emptyListing.length, emptyListing ++ [0]⟩
      else listingLoop responsePath maxSize folder 0 s.total []
    else listingPause s []
  else listingLoop responsePath maxSize s.unread s.stage s.total []

/-! ## Runs -/

/-- `CGI_LoadContentToSend` ends the response behind this call. -/
def ListingCall.Ends (k : ListingCall) : Prop := k.size < 0 ∨ k.state.stage = stageEnd

/-- The block a call returns. -/
def ListingCall.block (k : ListingCall) : Bytes := k.out.take k.size.toNat

/-- The calls until the listing ends, each with the `maxSize` it was given. -/
inductive ListingRun (responsePath : Bytes) (folder : List DirEntry) :
    Listing → List (Int × ListingCall) → Prop
  | last {s : Listing} {maxSize : Int}
      (hends : (readOneFileInfo responsePath folder s maxSize).Ends) :
      ListingRun responsePath folder s [(maxSize, readOneFileInfo responsePath folder s maxSize)]
  | more {s : Listing} {maxSize : Int} {calls : List (Int × ListingCall)}
      (hgoes : ¬(readOneFileInfo responsePath folder s maxSize).Ends)
      (hrest : ListingRun responsePath folder
        (readOneFileInfo responsePath folder s maxSize).state calls) :
      ListingRun responsePath folder s
        ((maxSize, readOneFileInfo responsePath folder s maxSize) :: calls)

/-- The blocks of a run. -/
def listingText (calls : List (Int × ListingCall)) : Bytes := calls.flatMap fun k => k.2.block

end Httpd
