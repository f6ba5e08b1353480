import Slideshow.Media.Error

/-! # What can go wrong with the object storage -/

namespace Slideshow

/-- An error of the object storage. -/
inductive BlobError where
  | misconfigured (reason : String)
  | notFound (key : String)
  /-- An address outside the bucket, from which no key can be read. -/
  | foreignUrl (url : String)
  | upload (key reason : String)
  | download (key reason : String)
  | unreachable (bucket reason : String)
  | file (fault : FileFault)

def BlobError.kind : BlobError → String
  | misconfigured _ => "Config"
  | notFound _ => "NotFound"
  | foreignUrl _ => "ForeignUrl"
  | upload _ _ => "Upload"
  | download _ _ => "Download"
  | unreachable _ _ => "Unreachable"
  | file _ => "Io"

def BlobError.message : BlobError → String
  | misconfigured reason => "Storage misconfigured: " ++ reason
  | notFound key => "Object " ++ key ++ " does not exist"
  | foreignUrl url => url ++ " is not served from this bucket"
  | upload key reason => "Upload of " ++ key ++ " failed: " ++ reason
  | download key reason => "Download of " ++ key ++ " failed: " ++ reason
  | unreachable bucket reason => "Bucket " ++ bucket ++ " unreachable: " ++ reason
  | file fault => "IO error: " ++ fault.message

end Slideshow
