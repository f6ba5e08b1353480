import Slideshow.Blob.Error
import Slideshow.Environment

/-! # Where objects are kept

A bucket has a name and a place; its objects can be read by everyone under a common address. From
the address of an object its key can be read back. -/

namespace Slideshow

/-- Where the bucket is, and who may write to it. -/
structure BlobConfig where
  bucket : String
  /-- The address of a service other than the usual one. -/
  endpoint : Option String
  region : String := "us-east-1"
  accessKey : Option String
  secretKey : Option String
  /-- The address under which objects are served. -/
  publicUrl : Option String
deriving Repr, DecidableEq

/-- A bucket that is in use. -/
structure Bucket where
  name : String
  /-- The common address of all objects, without a slash at its end. -/
  base : String
deriving Repr, DecidableEq

namespace BlobConfig

/-- The configuration that an environment asks for. -/
def ofEnvironment (env : Environment) : Except BlobError BlobConfig :=
  match env.lookup "S3_BUCKET" with
  | none => .error (.misconfigured "S3_BUCKET not set")
  | some bucket =>
    .ok
      { bucket
        endpoint := env.nonblank? "S3_ENDPOINT_URL"
        region := (env.nonblank? "S3_REGION").getD "us-east-1"
        accessKey := env.nonblank? "S3_ACCESS_KEY_ID"
        secretKey := env.nonblank? "S3_SECRET_ACCESS_KEY"
        publicUrl := env.nonblank? "S3_PUBLIC_URL" }

/-- A text without slashes at its end. -/
def withoutSlashes (text : String) : String :=
  String.ofList (text.toList.reverse.dropWhile (· = '/')).reverse

/-- The common address of all objects, without a slash at its end. -/
def publicBase (c : BlobConfig) : String :=
  withoutSlashes <| match c.publicUrl, c.endpoint with
    | some url, _ => url
    | none, some endpoint => withoutSlashes endpoint ++ "/" ++ c.bucket
    | none, none => "https://" ++ c.bucket ++ ".s3." ++ c.region ++ ".amazonaws.com"

/-- The bucket of a configuration. Both keys are given, or none and others are found. -/
def toBucket (c : BlobConfig) : Except BlobError Bucket :=
  if c.accessKey.isSome = c.secretKey.isSome then .ok ⟨c.bucket, c.publicBase⟩
  else .error
    (.misconfigured "S3_ACCESS_KEY_ID and S3_SECRET_ACCESS_KEY must be set together")

def toJson (c : BlobConfig) : Json :=
  .object
    [("bucket", .string c.bucket), ("endpoint", Json.ofOption .string c.endpoint),
     ("region", .string c.region), ("key", Json.ofOption .string c.accessKey),
     ("secret", Json.ofOption .string c.secretKey),
     ("public_url", Json.ofOption .string c.publicUrl), ("base", .string c.publicBase)]

end BlobConfig

namespace Bucket

/-- The address of an object. -/
def publicUrl (b : Bucket) (key : String) : String := b.base ++ "/" ++ key

/-- What remains of a text after its beginning, if it begins so. -/
def dropBeginning? : List Char → List Char → Option (List Char)
  | [], cs => some cs
  | _ :: _, [] => none
  | c :: beginning, d :: cs => if c = d then dropBeginning? beginning cs else none

/-- The key of the object at an address, if it is in this bucket. -/
def keyOf? (b : Bucket) (url : String) : Option String := do
  let key ← dropBeginning? (b.base.toList ++ ['/']) url.toList
  if key.isEmpty then none else some (String.ofList key)

end Bucket

end Slideshow
