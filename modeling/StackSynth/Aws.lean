import StackSynth.Provider
import StackSynth.Resource

/-!
# Aws — constructs of one provider, field by field

Shapes with a field for every attribute that matters, which become ordinary providers and
resources.
-/

namespace StackSynth
namespace Aws

def providerName : String := "aws"
def providerSource : String := "hashicorp/aws"

/-- A provider for one region. -/
structure Account where
  region : String
  profile : Option String
  aliasName : Option String

def Account.provider (account : Account) : Except Failure Provider := do
  if Text.isBlank account.region then throw (.emptyField "provider.aws" "region")
  let provider ← Provider.make providerName providerSource
  let provider := provider.set "region" (.ofText account.region)
  let provider :=
    match account.profile with
    | some profile => provider.set "profile" (.ofText profile)
    | none => provider
  match account.aliasName with
  | some aliasName => provider.withAlias aliasName
  | none => return provider

/-- A place that holds objects. -/
structure Bucket where
  bucket : Expression
  forceDestroy : Bool

def Bucket.resource (shape : Bucket) (id : String) : Except Failure Resource := do
  let resource := (← Resource.make Resource.bucketType id).set "bucket" shape.bucket
  return if shape.forceDestroy then resource.set "force_destroy" (.literal (.bool true))
    else resource

/-- An object in a bucket. -/
structure BucketObject where
  bucket : Expression
  key : Expression
  source : Expression
  contentType : Option String

def BucketObject.resource (shape : BucketObject) (id : String) : Except Failure Resource := do
  let resource ← Resource.make Resource.bucketObjectType id
  let resource := ((resource.set "bucket" shape.bucket).set "key" shape.key).set "source"
    shape.source
  return match shape.contentType with
    | some type => resource.set "content_type" (.ofText type)
    | none => resource

end Aws
end StackSynth
